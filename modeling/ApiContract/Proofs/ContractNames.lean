import ApiContract.Proofs.HandlerArguments
import ApiContract.Proofs.OperationExchange
import ApiContract.Proofs.ParameterMerging
import ApiContract.Proofs.Requests
import ApiContract.Proofs.Words

/-!
# Names of contract arguments

**Input:** an operation of resolved metadata, whose parameters are scalars.

A contract method takes an argument for each parameter, called by the words of its name, and after
them the request body, which is always called `request_body`.  Two parameters with the same words
are refused.  The request body is not compared with the parameters.

**Results:**

* `paramsAfter_cases`: the identifiers of the parameters are different, or the first parameter that
  repeats one is refused;
* `contract_names`: the arguments of a contract method are those of its parameters and the request
  body, and have different identifiers unless a parameter has the words of the request body's name;
* `contract_repeats_name`: then two arguments have the same identifier.
-/

namespace ApiContract

open Naming (fieldIdent identWords fieldIdent_eq_iff)

/-! ## Scalars -/

namespace Resolve

/-- The parameters of a resolved operation are scalars. -/
theorem scalar_of_resolve {d : Document} {namePrefix : String} {m : Metadata} {ws : List Warning}
    (h : d.resolve namePrefix = .ok (m, ws)) {o : Operation} (ho : o ∈ m.operations) :
    ∀ p ∈ o.params, ∃ q, p.property.type = .primitive q := by
  obtain ⟨e, -, _, _, hr⟩ := exists_of_mem_right (run_endpoints h) ho
  exact scalars_of_operation hr

end Resolve

namespace Emit

/-! ## The check of the parameters -/

/-- A parameter repeats the identifier of an earlier one, and is the first that does. -/
def FirstRepeated (ps : List Param) (p : Param) : Prop :=
  ∃ before after, ps = before ++ p :: after ∧
    (before.map fun p => fieldIdent p.name).Nodup ∧
    fieldIdent p.name ∈ before.map fun p => fieldIdent p.name

section Check

variable {o : Operation} {done cs : List ContractParam} {ps : List Param}

/-- The parameters are taken one after another, each with an identifier that is not taken yet; the
first one without is refused. -/
theorem paramsAfter_cases (hs : ∀ p ∈ ps, ∃ q, p.property.type = .primitive q)
    (hdone : (done.map (·.ident)).Nodup) :
    ((done.map (·.ident) ++ ps.map fun p => fieldIdent p.name).Nodup ∧
      ∃ cs, paramsAfter o done ps = .ok cs) ∨
    ∃ before p after, ps = before ++ p :: after ∧
      (done.map (·.ident) ++ before.map fun p => fieldIdent p.name).Nodup ∧
      fieldIdent p.name ∈ done.map (·.ident) ++ before.map (fun p => fieldIdent p.name) ∧
      paramsAfter o done ps = .error (.paramsCollide o.operationId (fieldIdent p.name)) := by
  induction ps generalizing done with
  | nil => exact Or.inl ⟨by simpa using hdone, done, rfl⟩
  | cons p ps ih =>
      obtain ⟨q, hq⟩ := hs p List.mem_cons_self
      have hscalar : paramScalar o p = .ok q := paramScalar_eq_ok.2 hq
      have htaken : done.any (·.ident == fieldIdent p.name) = true ↔
          fieldIdent p.name ∈ done.map (·.ident) := by
        simp
      by_cases hp : fieldIdent p.name ∈ done.map (·.ident)
      · refine Or.inr ⟨[], p, ps, rfl, by simpa using hdone, by simpa using hp, ?_⟩
        rw [paramsAfter, hscalar]
        exact if_pos (htaken.2 hp)
      · have hstep : paramsAfter o done (p :: ps) =
            paramsAfter o (done ++ [paramArgument p q]) ps := by
          rw [paramsAfter, hscalar]
          exact if_neg (mt htaken.1 hp)
        have hdone' : ((done ++ [paramArgument p q]).map (·.ident)).Nodup := by
          rw [List.map_append, List.nodup_append_comm]
          exact List.nodup_cons.2 ⟨hp, hdone⟩
        have hmove : ∀ rest : List String,
            (done ++ [paramArgument p q]).map (·.ident) ++ rest =
              done.map (·.ident) ++ fieldIdent p.name :: rest := by
          intro rest
          simp [paramArgument]
        rw [hstep]
        rcases ih (fun p' hp' => hs p' (List.mem_cons_of_mem p hp')) hdone' with
          ⟨hn, hok⟩ | ⟨before, p', after, rfl, hn, hmem, herror⟩
        · rw [hmove] at hn
          exact Or.inl ⟨hn, hok⟩
        · rw [hmove] at hn hmem
          exact Or.inr ⟨p :: before, p', after, rfl, hn, hmem, herror⟩

theorem contractParams_eq (h : paramsAfter o [] o.params = .ok cs) :
    contractParams o = .ok (cs ++ (o.requestBody.map bodyArgument).toList) := by
  rw [contractParams, h]
  rfl

/-- The parameters of an operation are taken if their identifiers are different, and else the first
one that repeats an identifier is refused. -/
theorem contractParams_cases (hs : ∀ p ∈ o.params, ∃ q, p.property.type = .primitive q) :
    ((paramIdents o).Nodup ∧ ∃ cs, contractParams o = .ok cs) ∨
    ∃ p, FirstRepeated o.params p ∧
      contractParams o = .error (.paramsCollide o.operationId (fieldIdent p.name)) := by
  rcases @paramsAfter_cases o [] o.params hs List.nodup_nil with
    ⟨hn, cs, hok⟩ | ⟨before, p, after, hps, hn, hmem, herror⟩
  · exact Or.inl ⟨hn, _, contractParams_eq hok⟩
  · refine Or.inr ⟨p, ⟨before, after, hps, hn, hmem⟩, ?_⟩
    rw [contractParams, herror]
    rfl

theorem FirstRepeated.not_nodup {p : Param} (h : FirstRepeated ps p) :
    ¬ (ps.map fun p => fieldIdent p.name).Nodup := by
  obtain ⟨before, after, rfl, -, hmem⟩ := h
  intro hn
  rw [List.map_append, List.map_cons, List.nodup_append] at hn
  exact hn.2.2 _ hmem _ List.mem_cons_self rfl

/-- The arguments have different identifiers unless there is a request body and a parameter has its
identifier. -/
theorem nodup_arguments_iff (h : contractParams o = .ok cs) :
    (cs.map (·.ident)).Nodup ↔ (o.requestBody.isSome = true → requestIdent ∉ paramIdents o) := by
  obtain ⟨ps, rfl, hps, hn⟩ := contractParams_eq_ok h
  have hidents : ps.map (·.ident) = paramIdents o := by
    rw [paramIdents, map_eq_map_iff]
    refine hps.flip.imp fun c p hc => ?_
    obtain ⟨q, -, rfl⟩ := hc
    rfl
  rw [hidents] at hn
  rw [List.map_append, hidents]
  cases o.requestBody with
  | none => simpa using hn
  | some b =>
      have hbody : (Option.map bodyArgument (some b)).toList.map (·.ident) = [requestIdent] := rfl
      rw [hbody, List.nodup_append_comm, List.singleton_append, List.nodup_cons]
      simp [hn]

theorem fieldIdent_eq_requestIdent_iff {s : String} :
    fieldIdent s = requestIdent ↔ identWords s = ["request".toList, "body".toList] := by
  have hself : fieldIdent requestIdent = requestIdent := by decide
  have hwords : identWords requestIdent = ["request".toList, "body".toList] := by decide
  rw [← hwords, ← fieldIdent_eq_iff, hself]

end Check

/-! ## A document with a parameter called as the request body -/

section Notes

abbrev notePointer : String :=
  "#/components/schemas/Note"

/-- An operation with a request body, and a parameter that has the name of its argument. -/
def addNote : Document.Operation where
  operationId := some "addNote"
  parameters := [.inline (Resolve.textParameter "requestBody" "query")]
  requestBody := some {
    required := true
    content := [("application/json", { schema := some { ref := some notePointer } })] }
  responses := [("204", Resolve.emptyResponse)]

def noteDocument : Document where
  paths := [("/notes", { post := some addNote })]
  components := { schemas := [("Note", { type := some "string" })] }

def noteOperation : Operation where
  path := "/notes"
  method := .post
  operationId := "addNote"
  summary := none
  params := [Resolve.textParam "requestBody" .query]
  requestBody := some {
    className := "AddNoteRequest"
    required := true
    content := [(.json, .ref notePointer)] }
  responseBody := {
    className := "AddNoteResponse"
    variants := [(.code 204, { name := "NoContent", headers := none, payload := .none })] }

def noteProgress : Resolve.Progress where
  table := { entries := [(notePointer, .primitive .string)] }
  entered := [notePointer]

def noteMetadata : Metadata where
  namePrefix := "Api"
  operations := [noteOperation]
  refs := noteProgress.table

open Resolve in
theorem resolve_noteDocument : noteDocument.resolve "Api" = .ok (noteMetadata, []) := by
  have hnote : (reference noteDocument [] notePointer).run {} =
      .ok (.ref notePointer, noteProgress) := by
    refine (run_reference_eq_ok (by decide) (by decide)).2
      ⟨rfl, _, "Note", .primitive .string, { entered := [notePointer] }, rfl, rfl, ?_, rfl⟩
    exact run_named_scalar (by decide) (by decide) (by decide) rfl
  have hes : operationsOf noteDocument =
      [("/notes", .post, { post := some addNote }, addNote)] := rfl
  have hbody : (requestBody noteDocument "addNote" addNote).run {} =
      .ok (noteOperation.requestBody, noteProgress) :=
    run_requestBody_of "AddNote" rfl (run_requestContents_cons rfl rfl hnote rfl) rfl rfl
  have hrun : (endpoint noteDocument ("/notes", .post, { post := some addNote }, addNote)).run {} =
      .ok (noteOperation, noteProgress) :=
    run_operation_of rfl rfl rfl rfl rfl rfl hbody rfl
  exact resolve_of_operation hes rfl hrun

end Notes

/-! ## Arguments of contract methods -/

section Contract

variable {d : Document} {namePrefix : String} {m : Metadata} {ws : List Warning} {o : Operation}

/-- The contract of a resolved operation fails exactly if two of its parameters have the same
identifier, and says which parameter is the first that repeats one.  Otherwise its arguments are
those of the parameters in their order and the request body after them.  They have different
identifiers, unless there is a request body and a parameter is called by the words `request` and
`body`. -/
theorem contract_names (h : d.resolve namePrefix = .ok (m, ws)) (ho : o ∈ m.operations) :
    ((∃ cs, contractParams o = .ok cs) ↔ (paramIdents o).Nodup) ∧
      (∀ e, contractParams o = .error e →
        ∃ p, FirstRepeated o.params p ∧ e = .paramsCollide o.operationId (fieldIdent p.name)) ∧
      ∀ cs, contractParams o = .ok cs →
        (∃ ps, cs = ps ++ (o.requestBody.map bodyArgument).toList ∧
          List.Forall₂ Argument o.params ps) ∧
        ((cs.map (·.ident)).Nodup ↔ ¬ (o.requestBody.isSome = true ∧
          ∃ p ∈ o.params, identWords p.name = ["request".toList, "body".toList])) := by
  have hcases := contractParams_cases (Resolve.scalar_of_resolve h ho)
  refine ⟨?_, fun e he => ?_, fun cs hcs => ⟨?_, ?_⟩⟩
  · constructor
    · rintro ⟨cs, hcs⟩
      exact nodup_paramIdents hcs
    · intro hn
      rcases hcases with ⟨-, hok⟩ | ⟨p, hp, -⟩
      · exact hok
      · exact absurd hn hp.not_nodup
  · rcases hcases with ⟨-, cs, hok⟩ | ⟨p, hp, herror⟩
    · cases hok.symm.trans he
    · exact ⟨p, hp, Except.error.inj (he.symm.trans herror)⟩
  · obtain ⟨ps, hps, harguments, -⟩ := contractParams_eq_ok hcs
    exact ⟨ps, hps, harguments⟩
  · have hmem : requestIdent ∈ paramIdents o ↔
        ∃ p ∈ o.params, identWords p.name = ["request".toList, "body".toList] := by
      simp [paramIdents, fieldIdent_eq_requestIdent_iff]
    rw [nodup_arguments_iff hcs, hmem]
    exact not_and.symm

theorem contract_names_reports :
    Resolve.reportDocument.resolve "Api" = .ok (Resolve.reportMetadata, Resolve.reportWarnings) ∧
      ∃ cs, contractParams Resolve.reportOperation = .ok cs ∧ (cs.map (·.ident)).Nodup := by
  obtain ⟨hok, -, hnames⟩ := contract_names Resolve.resolve_reportDocument List.mem_cons_self
  obtain ⟨cs, hcs⟩ := hok.2 (by decide)
  exact ⟨Resolve.resolve_reportDocument, cs, hcs, (hnames cs hcs).2.2 (by decide)⟩

/-- A parameter called `requestBody` and the request body become arguments of the same name. -/
theorem contract_repeats_name :
    noteDocument.resolve "Api" = .ok (noteMetadata, []) ∧
      (contractParams noteOperation).map (fun cs => cs.map (·.ident)) =
        .ok ["request_body", "request_body"] :=
  ⟨resolve_noteDocument, by decide⟩

end Contract

end Emit
end ApiContract
