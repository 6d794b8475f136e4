import ApiContract.Proofs.Latest
import ApiContract.Proofs.Settled
import ApiContract.Resolve.Document

/-!
# Operations in settled tables

Every part of an operation is resolved outside any path.  So an operation has the same outcome in
all settled tables: it fails in all of them, or gives in all of them the same descriptors and asks
for the same pointers.

**Results:**

* `Operation.descriptors`: everything in an operation that values are sent as;
* `Steady.operation`: the outcome of an operation is steady, and every pointer inside its
  descriptors is asked for.
-/

namespace ApiContract

/-- The types of the contents of a request body. -/
def RequestBody.descriptors (b : RequestBody) : List Descriptor :=
  b.content.map Prod.snd

/-- The types of the bodies and headers of all responses. -/
def ResponseBody.descriptors (b : ResponseBody) : List Descriptor :=
  b.variants.flatMap fun e => e.2.members

/-- The types of the parameters, of the contents of the request body, and of the bodies and headers
of the responses. -/
def Operation.descriptors (o : Operation) : List Descriptor :=
  o.params.map (fun p => p.property.type) ++
    (o.requestBody.toList.flatMap RequestBody.descriptors ++ o.responseBody.descriptors)

namespace Resolve
namespace Steady

variable {d : Document} {known : List String} {operationId className : String}

/-! ## Parameters -/

theorem primitiveOf? (s? : Option Document.Schema) (context : String) :
    Steady d known (primitiveOf? d s? context) fun _ _ => True := by
  cases s? with
  | none => exact .pure trivial
  | some s =>
      refine (Steady.typeOf s context).bind fun t asked ht => ?_
      subst ht
      refine Steady.look (g := fun table => table.resolve? t)
        (f := fun u? => Pure.pure (u?.bind Descriptor.primitive?)) ?_ fun _ => .pure trivial
      intro t₁ t₂ h₁ h₂ hk₁ hk₂
      have hp₁ := (List.append_subset.1 hk₁).2
      have hp₂ := (List.append_subset.1 hk₂).2
      exact h₁.resolve?_eq h₂ hp₁ hp₂

theorem parameter (p : Document.Parameter) :
    Steady d known (parameter d operationId p) fun param _ =>
      param.property.type.pointers = [] := by
  unfold Resolve.parameter
  refine orRefuse.bind fun location _ _ => ?_
  refine (primitiveOf? _ _).bind fun primitive? _ _ => ?_
  refine orRefuse.bind fun primitive _ _ => ?_
  exact .pure rfl

theorem parameters (item : Document.PathItem) (o : Document.Operation) :
    Steady d known (parameters d operationId item o) fun params _ =>
      ∀ p ∈ params, p.property.type.pointers = [] := by
  unfold Resolve.parameters
  have hdeclared : Steady d known ((item.parameters ++ o.parameters).mapM fun e =>
      (liftM (followParam d e) : Resolving Document.Parameter)) fun ps _ => ∀ p ∈ ps, True :=
    .mapM fun e _ => (lift (followParam d e)).imp fun _ _ _ => trivial
  refine hdeclared.bind fun declared _ _ => ?_
  exact .mapM fun e _ => parameter e.2

/-! ## Requests -/

/-- Contents added to others are these or the new one. -/
theorem mem_addContent {m : Media} {t : Descriptor} {done : List (Media × Descriptor)}
    {e : Media × Descriptor} (h : e ∈ addContent m t done) : e ∈ done ∨ e = (m, t) := by
  unfold addContent at h
  split at h
  · exact Or.inl h
  · rcases List.mem_append.1 h with h | h
    · exact Or.inl h
    · exact Or.inr (List.mem_singleton.1 h)

theorem requestContents (content : Document.Content) (done : List (Media × Descriptor)) :
    Steady d known (requestContents d operationId done content) fun all asked =>
      ∀ e ∈ all, e ∈ done ∨ e.2.pointers ⊆ asked := by
  induction content generalizing known done with
  | nil => exact .pure fun e he => Or.inl he
  | cons entry rest ih =>
      obtain ⟨mime, c⟩ := entry
      rw [Resolve.requestContents]
      split
      · refine (warn _).bind fun _ asked h => ?_
        subst h
        exact ih done
      split
      · refine (warn _).bind fun _ asked h => ?_
        subst h
        exact ih done
      · rename_i m _ _ pointer _
        refine (reference pointer).bind fun t asked h => ?_
        obtain ⟨rfl, rfl⟩ := h
        refine (ih (addContent m (.ref pointer) done)).imp fun all more h e he => ?_
        rcases h e he with hold | hnew
        · rcases mem_addContent hold with hold | rfl
          · exact Or.inl hold
          · exact Or.inr (by simp)
        · exact Or.inr (List.subset_append_of_subset_right _ hnew)

theorem requestBody (o : Document.Operation) :
    Steady d known (requestBody d operationId o) fun b? asked =>
      ∀ u ∈ b?.toList.flatMap RequestBody.descriptors, u.pointers ⊆ asked := by
  unfold Resolve.requestBody
  split
  · exact .pure (by simp)
  · rename_i b _
    refine (requestContents b.content []).bind fun content asked h => ?_
    split
    · refine (warn _).bind fun _ more _ => ?_
      exact .pure (by simp)
    · refine (typeName _ _).bind fun name more _ => ?_
      refine .pure fun u hu => ?_
      simp only [Option.toList_some, List.flatMap_cons, List.flatMap_nil, List.append_nil,
        RequestBody.descriptors] at hu
      obtain ⟨e, he, rfl⟩ := List.mem_map.1 hu
      rcases h e he with hn | hs
      · cases hn
      · exact List.subset_append_of_subset_left _ hs

/-! ## Responses -/

theorem headerProperties (headers : List (String × Document.Header)) :
    Steady d known (headerProperties d operationId className headers) fun ps _ =>
      ∀ p ∈ ps, p.type.pointers = [] := by
  induction headers generalizing known with
  | nil => exact .pure (by simp)
  | cons entry rest ih =>
      obtain ⟨header, h⟩ := entry
      rw [Resolve.headerProperties]
      refine (primitiveOf? _ _).bind fun primitive? _ _ => ?_
      refine orRefuse.bind fun primitive _ _ => ?_
      refine ih.bind fun more _ hm => ?_
      refine .pure fun p hp => ?_
      rcases List.mem_cons.1 hp with rfl | hp
      · rfl
      · exact hm p hp

theorem responseHeaders (variant : String) (r : Document.Response) :
    Steady d known (responseHeaders d operationId className variant r) fun headers? _ =>
      ∀ u ∈ headers?, u.pointers = [] := by
  unfold Resolve.responseHeaders
  split
  · exact .pure (by simp)
  · refine (headerProperties r.headers).bind fun ps _ hps => ?_
    refine .pure fun u hu => ?_
    cases hu
    simpa using hps

theorem statusName (status : Status) :
    Steady d known (statusName operationId status) fun _ asked => asked = [] :=
  orRefuse.imp fun _ _ h => h.1

theorem jsonBody (status : Status) (s : Document.Schema) :
    Steady d known (jsonBody d operationId className status s) fun nb asked =>
      nb.2.pointers ⊆ asked := by
  unfold Resolve.jsonBody
  split
  · rename_i pointer _
    refine (reference pointer).bind fun body asked h => ?_
    obtain ⟨rfl, rfl⟩ := h
    refine Steady.look (g := fun table => (table.resolve? (.ref pointer)).any namesResponse)
      (f := fun c => if c = true then _ else _) ?_ fun c => ?_
    · intro t₁ t₂ h₁ h₂ hk₁ hk₂
      have hp₁ := (List.append_subset.1 hk₁).2
      have hp₂ := (List.append_subset.1 hk₂).2
      have he := h₁.resolve?_eq h₂ (u := .ref pointer) hp₁ hp₂
      exact congrArg (Option.any namesResponse) he
    · split
      · refine (typeName _ _).bind fun name more _ => ?_
        exact .pure (by simp)
      · refine (statusName status).bind fun name more _ => ?_
        exact .pure (by simp)
  · refine (statusName status).bind fun name asked _ => ?_
    refine (Steady.typeOf s _).bind fun t more h => ?_
    subst h
    exact .pure (by simp)

theorem responseVariant (status : Status) (r : Document.Response) :
    Steady d known (responseVariant d operationId className status r) fun v asked =>
      ∀ u ∈ v.members, u.pointers ⊆ asked := by
  unfold Resolve.responseVariant
  split
  · rename_i s _
    refine (jsonBody status s).bind fun nb asked hbody => ?_
    obtain ⟨name, body⟩ := nb
    refine (responseHeaders name r).bind fun headers? more hheaders => ?_
    refine .pure fun u hu => ?_
    rcases List.mem_append.1 hu with hu | hu
    · cases List.mem_singleton.1 hu
      exact List.subset_append_of_subset_left _ hbody
    · rw [hheaders u (by simpa using hu)]
      exact List.nil_subset _
  split
  · refine (responseHeaders "File" r).bind fun headers? asked hheaders => ?_
    refine .pure fun u hu => ?_
    rcases List.mem_append.1 hu with hu | hu
    · cases List.mem_singleton.1 hu
      exact List.nil_subset _
    · rw [hheaders u (by simpa using hu)]
      exact List.nil_subset _
  · have hlast : ∀ {known : List String}, Steady d known
        (do
          let name ← Resolve.statusName operationId status
          let headers ← Resolve.responseHeaders d operationId className name r
          return { name, headers, payload := .none } : Resolving Variant)
        fun v asked => ∀ u ∈ v.members, u.pointers ⊆ asked := by
      intro known
      refine (statusName status).bind fun name asked _ => ?_
      refine (responseHeaders name r).bind fun headers? more hheaders => ?_
      refine .pure fun u hu => ?_
      rw [hheaders u (by simpa [Variant.members, Variant.body?] using hu)]
      exact List.nil_subset _
    split
    · refine (warn _).bind fun _ asked h => ?_
      subst h
      exact hlast
    · exact hlast

/-- Whether a response has a status is the same in all settled tables that have its pointers. -/
theorem hasStatus_eq {t t' : RefTable} {v : Variant} (h : Settled d t) (h' : Settled d t')
    (hk : ∀ u ∈ v.members, u.pointers ⊆ t.keys) (hk' : ∀ u ∈ v.members, u.pointers ⊆ t'.keys) :
    hasStatus t v = hasStatus t' v := by
  obtain ⟨name, headers?, payload⟩ := v
  cases payload with
  | none => rfl
  | body u isFile =>
      cases isFile with
      | true => rfl
      | false =>
          have hu : u ∈ (Variant.mk name headers? (.body u false)).members := by
            simp [Variant.members, Variant.body?]
          simp only [hasStatus, h.resolve?_eq h' (hk u hu) (hk' u hu)]

theorem responseVariants (responses : List (String × Document.Response))
    (done : List (Status × Variant)) :
    Steady d known (responseVariants d operationId className done responses) fun all asked =>
      ∀ e ∈ all, e ∈ done ∨ ∀ u ∈ e.2.members, u.pointers ⊆ asked := by
  induction responses generalizing known done with
  | nil => exact .pure fun e he => Or.inl he
  | cons entry rest ih =>
      obtain ⟨text, r⟩ := entry
      rw [Resolve.responseVariants]
      refine orRefuse.bind fun status asked h => ?_
      refine (responseVariant status r).bind fun v more hv => ?_
      refine Steady.look (g := fun table => hasStatus table v)
        (f := fun c => if (status == Status.default && !c) = true then _ else _) ?_ fun c => ?_
      · intro t₁ t₂ h₁ h₂ hk₁ hk₂
        have hk₁' := (List.append_subset.1 hk₁).2
        have hk₂' := (List.append_subset.1 hk₂).2
        exact hasStatus_eq h₁ h₂ (fun u hu => List.Subset.trans (hv u hu) hk₁')
          fun u hu => List.Subset.trans (hv u hu) hk₂'
      split
      · exact .refuse_bind _
      split
      · exact .refuse_bind _
      refine (ih (Assoc.put status v done)).imp fun all last h e he => ?_
      rcases h e he with hold | hnew
      · rcases Assoc.mem_put hold with hold | hself
        · exact Or.inl hold
        · refine Or.inr fun u hu => ?_
          rw [hself] at hu
          have hm : more ⊆ asked ++ (more ++ last) := by
            intro q hq
            simp [hq]
          exact List.Subset.trans (hv u hu) hm
      · refine Or.inr fun u hu q hq => ?_
        simp [hnew u hu hq]

theorem responseBody (o : Document.Operation) :
    Steady d known (responseBody d operationId o) fun b asked =>
      ∀ u ∈ b.descriptors, u.pointers ⊆ asked := by
  unfold Resolve.responseBody
  refine (typeName _ _).bind fun name asked _ => ?_
  refine (responseVariants o.responses []).bind fun variants more h => ?_
  refine .pure fun u hu => ?_
  obtain ⟨e, he, hu⟩ := List.mem_flatMap.1 hu
  rcases h e he with hn | hs
  · cases hn
  · intro q hq
    simp [hs u hu hq]

/-! ## Operations -/

/-- The outcome of an operation is steady, and the pointers inside its descriptors are asked for. -/
theorem operation (path : String) (method : Method) (item : Document.PathItem)
    (o : Document.Operation) :
    Steady d known (operation d path method item o) fun r asked =>
      ∀ u ∈ r.descriptors, u.pointers ⊆ asked := by
  unfold Resolve.operation
  refine orRefuse.bind fun operationId _ _ => ?_
  refine (typeName _ _).bind fun _ _ _ => ?_
  refine (lift _).bind fun security? _ _ => ?_
  refine (parameters item o).bind fun declared _ hdeclared => ?_
  dsimp only
  have hparams : ∀ p ∈ (security?.map securityParam).toList ++
      declared.filter (fun p => !isSecurityHeader security? p), p.property.type.pointers = [] := by
    intro p hp
    rcases List.mem_append.1 hp with hp | hp
    · obtain ⟨s, -, rfl⟩ := Option.map_eq_some_iff.1 (Option.mem_toList.1 hp)
      rfl
    · exact hdeclared p (List.mem_of_mem_filter hp)
  split
  · exact .refuse_bind _
  · refine (requestBody o).bind fun b? asked hb => ?_
    refine (responseBody o).bind fun b more hb' => ?_
    refine .pure fun u hu q hq => ?_
    simp only [Operation.descriptors, List.mem_append, List.mem_map] at hu
    rcases hu with ⟨p, hp, rfl⟩ | hu | hu
    · simp [hparams p (by simpa using hp)] at hq
    · simp [hb u hu hq]
    · simp [hb' u hu hq]

end Steady
end Resolve
end ApiContract
