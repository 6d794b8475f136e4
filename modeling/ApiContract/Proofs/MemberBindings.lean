import ApiContract.Proofs.FieldNames

/-!
# Names that the arms of handlers and clients bind

**Input:** a resolved document from which controller and client can be generated.

An arm that writes a response binds the members of a variant, and an arm that sends a request body
binds the body.  Beside them an arm has names of its own: a handler writes with `writer`, and
registers a file with `cleanup`; a client method has its `request`, and fills a `form` with parts.
A name that the arm introduces hides a member, and a member hides a name that was there before.

**Results:**

* `ArmBody.Understood`: every expression of an arm finds the member or the own name that it is
  about;
* `understood_dispatch_iff`, `understood_encode_iff`: this holds unless a body is a pointer with the
  words of a name that the arm has for itself, or with those of the record of headers;
* `member_bindings`: so it is with all arms that are generated;
* `arms_bind_helpers`: a document with bodies that are called by such names.
-/

namespace ApiContract

open Naming (fieldIdent fieldIdent_eq_iff fieldIdent_ne identWords lastLetter? simpleName)

namespace Emit

open Code (Meaning Statement introduced scopes owned flat word literal braces commas)
open Resolve (Describes)

/-! ## Arms -/

section Arms

variable {ν : Type}

/-- Names with what they mean in an arm: for the arm or the function around it, something of their
own, a value that the function is about, or a member that the arm is about. -/
abbrev ArmNames (ν : Type) := Assoc String (Meaning (ν ⊕ Descriptor))

/-- A statement of an arm.  It mentions members by their identifiers. -/
abbrev ArmStatement (ν : Type) := Statement Descriptor (ν ⊕ Descriptor)

/-- What a name of the function around an arm means in it. -/
def outerMeaning : Meaning ν → Meaning (ν ⊕ Descriptor)
  | .own => .own
  | .value v => .value (.inl v)

/-- The names of a function, as they are seen in an arm. -/
def outer (names : Assoc String (Meaning ν)) : ArmNames ν :=
  names.map fun e => (e.1, outerMeaning e.2)

/-- The names that an arm binds for members. -/
def memberNames (ts : List Descriptor) : ArmNames ν :=
  ts.map fun t => (memberIdent t, .value (.inr t))

/-- What an arm does: it sets something up, goes through groups of statements, each with names that
end with the group, and ends with a value. -/
structure ArmBody (ν : Type) where
  setup : List (ArmStatement ν) := []
  groups : List (List (ArmStatement ν)) := []
  last : ArmStatement ν

/-- The code of an arm, where `wrap` makes the code of a group. -/
def ArmBody.code (wrap : Code → Code) (b : ArmBody ν) : Code :=
  b.setup.flatMap (·.code) ++ b.groups.flatMap (fun g => wrap (g.flatMap (·.code))) ++ b.last.code

/-- A statement finds the own names that it uses and the members that it mentions. -/
structure Understands (known : ArmNames ν) (s : ArmStatement ν) : Prop where
  own : ∀ n ∈ s.uses, known.latest? n = some .own
  members : ∀ t ∈ s.mentions, known.latest? (memberIdent t) = some (.value (.inr t))

/-- So does every one of some statements that follow each other. -/
def AllUnderstand (names : ArmNames ν) (ss : List (ArmStatement ν)) : Prop :=
  ∀ s known, (s, known) ∈ scopes names ss → Understands known s

/-- So does everything in an arm. -/
structure ArmBody.Understood (names : ArmNames ν) (b : ArmBody ν) : Prop where
  setup : AllUnderstand names b.setup
  groups : ∀ g ∈ b.groups, AllUnderstand (names ++ introduced b.setup) g
  last : Understands (names ++ introduced b.setup) b.last

variable {names : ArmNames ν} {s : ArmStatement ν} {ss : List (ArmStatement ν)} {t : Descriptor}
  {ts : List Descriptor} {n : String} {own : List String}

theorem allUnderstand_nil : AllUnderstand names [] := by
  intro s known h
  cases h

theorem allUnderstand_cons : AllUnderstand names (s :: ss) ↔
    Understands names s ∧ AllUnderstand (names ++ s.introduces.toList) ss := by
  constructor
  · intro h
    exact ⟨h s names List.mem_cons_self, fun t known ht => h t known (List.mem_cons_of_mem _ ht)⟩
  · rintro ⟨hs, hss⟩ t known ht
    rcases List.mem_cons.1 ht with he | ht
    · obtain ⟨rfl, rfl⟩ := Prod.mk.inj he
      exact hs
    · exact hss t known ht

theorem latest?_outer {names : Assoc String (Meaning ν)} (h : names.latest? n = some .own) :
    (outer names).latest? n = some .own := by
  rw [outer, Assoc.latest?_map, h]
  rfl

theorem map_fst_memberNames (ts : List Descriptor) :
    (memberNames ts : ArmNames ν).map Prod.fst = ts.map memberIdent := by
  rw [memberNames, List.map_map]
  rfl

/-- Members with different identifiers are found. -/
theorem latest?_memberIdent (hn : (ts.map memberIdent).Nodup) (ht : t ∈ ts) :
    Assoc.latest? (names ++ memberNames ts) (memberIdent t) = some (.value (.inr t)) := by
  rw [Assoc.latest?_append_of_mem]
  · refine Assoc.latest?_eq_some_of_unique (List.mem_map.2 ⟨t, ht, rfl⟩) fun w hw => ?_
    obtain ⟨u, hu, he⟩ := List.mem_map.1 hw
    obtain ⟨hident, rfl⟩ := Prod.mk.inj he
    rw [List.inj_on_of_nodup_map hn hu ht hident]
  · rw [map_fst_memberNames]
    exact List.mem_map_of_mem ht

/-- Members with different identifiers are found behind names of the arm which are not their own. -/
theorem latest?_inside_iff (hn : (ts.map memberIdent).Nodup) (ht : t ∈ ts) :
    Assoc.latest? (names ++ memberNames ts ++ owned own) (memberIdent t) = some (.value (.inr t)) ↔
      memberIdent t ∉ own := by
  by_cases he : memberIdent t ∈ own
  · rw [Code.latest?_owned he]
    simp [he]
  · rw [Code.latest?_of_not_mem_owned he, latest?_memberIdent hn ht]
    simp [he]

/-- The last member is found under its name. -/
theorem latest?_of_last_member (ts : List Descriptor) (t : Descriptor) :
    Assoc.latest? (names ++ memberNames (ts ++ [t])) (memberIdent t) = some (.value (.inr t)) := by
  rw [memberNames, List.map_append, ← List.append_assoc, Assoc.latest?_append]
  simp [Assoc.latest?]

/-- A name that no member has keeps its meaning. -/
theorem latest?_of_not_member (h : n ∉ ts.map memberIdent) :
    Assoc.latest? (names ++ memberNames ts) n = names.latest? n :=
  Assoc.latest?_append_of_not_mem (by rwa [map_fst_memberNames])

end Arms

/-! ## Writing responses -/

section Dispatch

variable {ν : Type}

/-- The statement that has a file deleted in the end. -/
def registering (t : Descriptor) : ArmStatement ν where
  uses := ["cleanup"]
  mentions := [t]
  code := flat "cleanup.remove_file(&" ++ word (memberIdent t) ++ flat ");"

/-- The statement that makes the writer, with the status of a variant. -/
def DispatchArm.starting (a : DispatchArm) (v : Variant) : ArmStatement ν where
  mentions :=
    match a.status with
    | .fixed _ => []
    | .body _ => v.body?.toList
  introduces := some ("writer", .own)
  code :=
    flat "let" ++ (if a.headers.isEmpty then [] else flat "mut") ++
      flat "writer = ::bindery::ResponseWriter::from_code(" ++ a.status.code ++ flat ")?;"

/-- The statements that write a header, which is a field of a record. -/
def HeaderWrite.statements (u : Descriptor) (h : HeaderWrite) : List (ArmStatement ν) :=
  let source := flat "&" ++ word (memberIdent u) ++ flat "." ++ word h.field
  if h.required then
    [{ uses := ["writer"]
       mentions := [u]
       code := flat "writer.header(" ++ literal h.wire ++ flat "," ++ source ++ flat ")?;" }]
  else
    [{ mentions := [u]
       introduces := some ("value", .own)
       code := flat "if let Some(value) =" ++ source },
     { uses := ["writer", "value"]
       code := braces (flat "writer.header(" ++ literal h.wire ++ flat ", value)?;") }]

/-- The value of an arm that writes a body. -/
def writing : Payload → ArmStatement ν
  | .none => { uses := ["writer"], code := flat "writer.empty()" }
  | .body t isFile =>
    { uses := ["writer"]
      mentions := [t]
      code :=
        if isFile then flat "writer.file(&" ++ word (memberIdent t) ++ flat ").await"
        else flat "writer.json(&" ++ word (memberIdent t) ++ flat ")" }

/-- What an arm does to write a variant. -/
def DispatchArm.armBody (a : DispatchArm) (v : Variant) : ArmBody ν where
  setup := (if v.isFile then v.body?.toList.map registering else []) ++ [a.starting v]
  groups := v.headers.toList.flatMap fun u => a.headers.map (·.statements u)
  last := writing v.payload

/-- The pattern that binds the members of a variant. -/
def memberPattern (ts : List Descriptor) : Code :=
  if ts.isEmpty then [] else braces (commas (ts.map fun t => word (memberIdent t)))

variable {o : Operation} {st : Status} {v : Variant} {a : DispatchArm}

theorem HeaderWrite.code_statements (u : Descriptor) (h : HeaderWrite) :
    (h.statements u : List (ArmStatement ν)).flatMap (·.code) = h.code (memberIdent u) := by
  unfold HeaderWrite.statements HeaderWrite.code
  cases h.required <;> simp

/-- The headers of a variant without a record of headers are none, and the others have its name. -/
theorem headers_of_dispatchArm (h : dispatchArm o st v = .ok a) :
    (v.headers = none ∧ a.headers = []) ∨ ∃ u, v.headers = some u ∧
      a.headersBinding = memberIdent u := by
  unfold dispatchArm at h
  obtain ⟨_, -, h⟩ := bind_eq_ok.1 h
  dsimp only at h
  split at h
  · rename_i hheaders
    obtain ⟨ps, hps, h⟩ := bind_eq_ok.1 h
    obtain rfl := Except.ok.inj hps
    obtain rfl := Except.ok.inj h
    exact Or.inl ⟨hheaders, rfl⟩
  · rename_i u hheaders
    obtain ⟨ps, -, h⟩ := bind_eq_ok.1 h
    obtain rfl := Except.ok.inj h
    exact Or.inr ⟨u, hheaders, by rw [hheaders]; rfl⟩

/-- A body is written as it is carried. -/
theorem body_of_dispatchArm (h : dispatchArm o st v = .ok a) :
    a.body = match v.payload with
      | .none => .empty
      | .body t true => .file (memberIdent t)
      | .body t false => .json (memberIdent t) := by
  unfold dispatchArm at h
  obtain ⟨_, -, h⟩ := bind_eq_ok.1 h
  dsimp only at h
  split at h
  all_goals
    obtain ⟨_, -, h⟩ := bind_eq_ok.1 h
    obtain rfl := Except.ok.inj h
    rfl

theorem code_dispatchArm (h : dispatchArm o st v = .ok a) (className : String) :
    a.code className = modelPath .sibling className ++ flat "::" ++ word v.name ++
      memberPattern v.members ++ flat "=>" ++ braces ((a.armBody v : ArmBody ν).code id) := by
  obtain ⟨htag, hbindings, -⟩ := dispatchArm_eq_ok h
  have hpattern : (if a.bindings.isEmpty then [] else braces (commas (a.bindings.map word))) =
      memberPattern v.members := by
    rw [hbindings, memberPattern, List.isEmpty_map, List.map_map]
    rfl
  have hgroups : (a.armBody v : ArmBody ν).groups.flatMap (fun g => id (g.flatMap (·.code))) =
      a.headers.flatMap (·.code a.headersBinding) := by
    have hcode : ∀ u (hs : List HeaderWrite),
        (hs.map (·.statements u) : List (List (ArmStatement ν))).flatMap (fun g =>
          g.flatMap (·.code)) =
          hs.flatMap (·.code (memberIdent u)) := by
      intro u hs
      rw [List.flatMap_map]
      exact congrArg (hs.flatMap ·) (funext fun h => h.code_statements u)
    rcases headers_of_dispatchArm h with ⟨hnone, hempty⟩ | ⟨u, hsome, hbinding⟩
    · simp [DispatchArm.armBody, hnone, hempty]
    · rw [hbinding]
      simpa [DispatchArm.armBody, hsome] using hcode u a.headers
  have hbody := body_of_dispatchArm h
  unfold DispatchArm.code ArmBody.code
  rw [hpattern, htag, hgroups]
  simp only [DispatchArm.armBody, DispatchArm.starting, List.flatMap_append, List.flatMap_singleton]
  cases hp : v.payload with
  | none =>
      rw [hp] at hbody
      simp [hbody, hp, Variant.isFile, writing]
  | body t isFile =>
      rw [hp] at hbody
      cases isFile <;> simp [hbody, hp, Variant.isFile, Variant.body?, writing, registering]

/-! ### Names in an arm that writes a response -/

/-- A descriptor is a pointer with the words of a name. -/
def Called (name : String) (t : Descriptor) : Prop :=
  ∃ pointer, t = .ref pointer ∧ identWords (simpleName pointer) = identWords name

/-- The body of a variant is a pointer with the words of `writer`. -/
def HidesWriter (v : Variant) : Prop :=
  ∃ t, v.payload = .body t false ∧ Called "writer" t

variable {names : ArmNames ν} {table : RefTable} {className : String} {r : Document.Response}
  {t : Descriptor} {name : String}

theorem memberIdent_ref_eq_iff {pointer : String} (hname : fieldIdent name = name) :
    memberIdent (.ref pointer) = name ↔ Called name (.ref pointer) := by
  have hiff : memberIdent (.ref pointer) = fieldIdent name ↔
      identWords (simpleName pointer) = identWords name := fieldIdent_eq_iff
  rw [hname] at hiff
  rw [hiff]
  constructor
  · exact fun hwords => ⟨pointer, rfl, hwords⟩
  · rintro ⟨_, he, hwords⟩
    cases he
    exact hwords

/-- A member has a name that does not end in one of few letters only as a pointer with its words. -/
theorem mem_idents_iff (hd : Describes table className r v) (hname : fieldIdent name = name)
    {c : Char} (hlast : lastLetter? name = some c) (hc : c ∉ ['e', 'y', 's']) :
    name ∈ v.members.map memberIdent ↔ ∃ t, v.payload = .body t false ∧ Called name t := by
  have hother : ∀ t, ∀ b ∈ ['e', 'y', 's'], lastLetter? (memberName t) = some b →
      memberIdent t ≠ name := by
    intro t b hb hb' he
    rw [← hname] at he
    refine fieldIdent_ne hb' hlast ?_ he
    rintro rfl
    exact hc hb
  constructor
  · intro hmem
    obtain ⟨t, ht, he⟩ := List.mem_map.1 hmem
    rcases List.mem_append.1 ht with ht | ht
    · obtain ⟨isFile, hp⟩ : ∃ isFile, v.payload = .body t isFile := by
        cases hp : v.payload <;> simp_all [Variant.body?]
      rcases body_cases hd hp with ⟨pointer, rfl, rfl⟩ | ⟨-, b, hb, hb'⟩
      · exact ⟨_, hp, (memberIdent_ref_eq_iff hname).1 he⟩
      · exact absurd he (hother t b (List.mem_append_left ['s'] hb) hb')
    · obtain ⟨_, _, rfl, hs⟩ := headers_called hd (Option.mem_toList.1 ht)
      exact absurd he (hother _ 's' (by simp) hs)
  · rintro ⟨t, hp, pointer, rfl, hwords⟩
    refine List.mem_map.2 ⟨.ref pointer, ?_,
      (memberIdent_ref_eq_iff hname).2 ⟨pointer, rfl, hwords⟩⟩
    simp [Variant.members, Variant.body?, hp]

theorem writer_mem_idents_iff (hd : Describes table className r v) :
    "writer" ∈ v.members.map memberIdent ↔ HidesWriter v :=
  mem_idents_iff (c := 'r') hd (by decide) (by decide) (by decide)

/-- No member of a variant with a file is called `cleanup`. -/
theorem cleanup_not_mem_idents (hd : Describes table className r v) (hfile : v.isFile = true) :
    "cleanup" ∉ v.members.map memberIdent := by
  rw [mem_idents_iff (c := 'p') hd (by decide) (by decide) (by decide)]
  rintro ⟨t, hp, -⟩
  simp [Variant.isFile, hp] at hfile

theorem introduced_setup (a : DispatchArm) (v : Variant) :
    introduced (a.armBody v : ArmBody ν).setup = owned ["writer"] := by
  obtain ⟨_, _, payload⟩ := v
  rcases payload with _ | ⟨_, _ | _⟩ <;> rfl

/-- A file is registered, and the status is taken from the body, before there is a writer. -/
theorem allUnderstand_setup (hbody : ∀ t, v.body? = some t →
      names.latest? (memberIdent t) = some (.value (.inr t)))
    (hcleanup : v.isFile = true → names.latest? "cleanup" = some .own) :
    AllUnderstand names (a.armBody v).setup := by
  have hregistering : ∀ t, v.isFile = true → v.body? = some t →
      Understands names (registering t) := by
    intro t hfile ht
    refine ⟨fun n hn => ?_, fun u hu => ?_⟩
    · rw [List.mem_singleton.1 hn]
      exact hcleanup hfile
    · rw [List.mem_singleton.1 hu]
      exact hbody t ht
  have hstarting : Understands names (a.starting v) := by
    refine ⟨fun n hn => (by cases hn), fun u hu => ?_⟩
    unfold DispatchArm.starting at hu
    cases hstatus : a.status <;> simp only [hstatus, List.not_mem_nil, Option.mem_toList] at hu
    exact hbody u hu
  have hsetup : (a.armBody v : ArmBody ν).setup =
      (if v.isFile then v.body?.toList.map registering else []) ++ [a.starting v] := rfl
  rw [hsetup]
  split
  · rename_i hfile
    cases hb : v.body? with
    | none => exact allUnderstand_cons.2 ⟨hstarting, allUnderstand_nil⟩
    | some t =>
        refine allUnderstand_cons.2 ⟨hregistering t hfile hb, ?_⟩
        rw [show (registering t : ArmStatement ν).introduces.toList = [] from rfl, List.append_nil]
        exact allUnderstand_cons.2 ⟨hstarting, allUnderstand_nil⟩
  · exact allUnderstand_cons.2 ⟨hstarting, allUnderstand_nil⟩

/-- A header is written from the record of headers, which `value` does not hide. -/
theorem allUnderstand_header (w : HeaderWrite) {u : Descriptor}
    (hu : Assoc.latest? (names ++ owned ["writer"]) (memberIdent u) = some (.value (.inr u))) :
    AllUnderstand (names ++ owned ["writer"]) (w.statements u) := by
  have hwriter : Assoc.latest? (names ++ owned ["writer"]) "writer" = some .own :=
    Code.latest?_owned (List.mem_singleton.2 rfl)
  unfold HeaderWrite.statements
  cases w.required with
  | true =>
      refine allUnderstand_cons.2 ⟨⟨fun n hn => ?_, fun t ht => ?_⟩, allUnderstand_nil⟩
      · rwa [List.mem_singleton.1 hn]
      · rwa [List.mem_singleton.1 ht]
  | false =>
      refine allUnderstand_cons.2 ⟨⟨fun n hn => (by cases hn), fun t ht => ?_⟩,
        allUnderstand_cons.2 ⟨⟨fun n hn => ?_, fun t ht => (by cases ht)⟩, allUnderstand_nil⟩⟩
      · rwa [List.mem_singleton.1 ht]
      · have hown : names ++ owned ["writer"] ++ owned ["value"] = names ++
            owned ["writer", "value"] :=
          List.append_assoc _ _ _
        exact hown ▸ Code.latest?_owned hn

/-- The body is written by the writer. -/
theorem understands_writing (hbody : ∀ t, v.body? = some t →
      Assoc.latest? (names ++ owned ["writer"]) (memberIdent t) = some (.value (.inr t))) :
    Understands (names ++ owned ["writer"]) (writing v.payload) := by
  have hwriter : ∀ n ∈ ["writer"], Assoc.latest? (names ++ owned ["writer"]) n = some .own :=
    fun n hn => Code.latest?_owned hn
  cases hp : v.payload with
  | none => exact ⟨hwriter, fun t ht => (by cases ht)⟩
  | body t isFile =>
      refine ⟨hwriter, fun u hu => ?_⟩
      rw [List.mem_singleton.1 hu]
      exact hbody t (by rw [Variant.body?, hp])

/-- A body that is found where it is written is not called like the writer. -/
theorem not_hidesWriter (hfound : ∀ t, v.payload = .body t false →
      Assoc.latest? (names ++ memberNames v.members ++ owned ["writer"]) (memberIdent t) =
        some (.value (.inr t))) : ¬ HidesWriter v := by
  rintro ⟨t, hp, pointer, rfl, hwords⟩
  have hbody := hfound _ hp
  have hname : fieldIdent "writer" = "writer" := by decide
  rw [(memberIdent_ref_eq_iff hname).2 ⟨pointer, rfl, hwords⟩,
    Code.latest?_owned (List.mem_singleton.2 rfl)] at hbody
  cases hbody

/-- It has not the name of the record of headers either, which is the last member. -/
theorem not_hidesHeaders (hd : Describes table className r v) (hwriter : ¬ HidesWriter v)
    (hfound : ∀ t, v.payload = .body t false →
      Assoc.latest? (names ++ memberNames v.members ++ owned ["writer"]) (memberIdent t) =
        some (.value (.inr t))) : ¬ HidesHeaders v := by
  rintro ⟨pointer, name, ps, hp, hheaders, hwords⟩
  have hmembers : v.members = [.ref pointer] ++ [.object (some name) ps] := by
    simp [Variant.members, Variant.body?, hp, hheaders]
  have hne : memberIdent (.object (some name) ps) ∉ ["writer"] := by
    intro he
    refine hwriter ((writer_mem_idents_iff hd).1 (List.mem_map.2 ⟨_, ?_, List.mem_singleton.1 he⟩))
    simp [hmembers]
  have hident : memberIdent (.ref pointer) = memberIdent (.object (some name) ps) :=
    fieldIdent_eq_iff.2 hwords
  have hbody := hfound _ hp
  rw [hident, Code.latest?_of_not_mem_owned hne, hmembers, latest?_of_last_member] at hbody
  cases hbody

/-- In an arm that writes a response every name stands for what it is meant to, unless the body is a
pointer with the words of `writer` or with those of the record of headers. -/
theorem understood_dispatch_iff (hd : Describes table className r v)
    (hcleanup : v.isFile = true → names.latest? "cleanup" = some .own) :
    (a.armBody v).Understood (names ++ memberNames v.members) ↔
      ¬ HidesWriter v ∧ ¬ HidesHeaders v := by
  constructor
  · intro hu
    have hfound : ∀ t, v.payload = .body t false →
        Assoc.latest? (names ++ memberNames v.members ++ owned ["writer"]) (memberIdent t) =
          some (.value (.inr t)) := by
      intro t hp
      have hlast := hu.last.members t (by simp [DispatchArm.armBody, writing, hp])
      rwa [introduced_setup] at hlast
    have hwriter := not_hidesWriter hfound
    exact ⟨hwriter, not_hidesHeaders hd hwriter hfound⟩
  · rintro ⟨hwriter, hheaders⟩
    have hnodup := (nodup_members_iff hd).2 hheaders
    have hinside : ∀ t ∈ v.members,
        Assoc.latest? (names ++ memberNames v.members ++ owned ["writer"]) (memberIdent t) =
          some (.value (.inr t)) := by
      intro t ht
      refine (latest?_inside_iff hnodup ht).2 fun he => ?_
      exact hwriter ((writer_mem_idents_iff hd).1 (List.mem_map.2 ⟨t, ht, List.mem_singleton.1 he⟩))
    have hbody : ∀ t, v.body? = some t → t ∈ v.members :=
      fun t ht => List.mem_append_left _ (Option.mem_toList.2 ht)
    constructor
    · refine allUnderstand_setup (fun t ht => latest?_memberIdent hnodup (hbody t ht)) fun hfile =>
        ?_
      rw [latest?_of_not_member (cleanup_not_mem_idents hd hfile)]
      exact hcleanup hfile
    · intro g hg
      obtain ⟨u, hu, hg⟩ := List.mem_flatMap.1 hg
      obtain ⟨w, -, rfl⟩ := List.mem_map.1 hg
      rw [introduced_setup]
      exact allUnderstand_header w (hinside u (List.mem_append_right _ hu))
    · rw [introduced_setup]
      exact understands_writing fun t ht => hinside t (hbody t ht)

end Dispatch

/-! ## Sending request bodies -/

section Encode

variable {ν : Type}

/-- The value of an arm that sends a body. -/
def sending (call : String) (t : Descriptor) : ArmStatement ν where
  uses := ["request"]
  mentions := [t]
  code := flat call ++ word (memberIdent t) ++ flat ")"

/-- The name that the value of a part has in its block. -/
def SentPart.value (p : SentPart) : String :=
  if p.isFile then "upload" else "value"

/-- The statement that adds the value of a part to the form. -/
def SentPart.adding (p : SentPart) : Code :=
  if p.isFile then
    flat "form = form.part(" ++ literal p.wire ++
      flat ", ::bindery::client::file_part(&upload.name, &upload.file, &upload.content_type)" ++
      flat ".await?,);"
  else flat "form = form.text(" ++ literal p.wire ++ flat ", value.to_string());"

/-- The statements that send a part, which is a field of a record. -/
def SentPart.statements (t : Descriptor) (p : SentPart) : List (ArmStatement ν) :=
  let source := flat "&" ++ word (memberIdent t) ++ flat "." ++ word p.field
  [{ mentions := [t]
     introduces := some (p.value, .own)
     code :=
      if p.required then flat "let" ++ word p.value ++ flat "=" ++ source ++ flat ";"
      else flat "if let Some(" ++ word p.value ++ flat ") =" ++ source },
   { uses := ["form", p.value]
     code := if p.required then p.adding else braces p.adding }]

/-- The value of an arm for bodies that cannot be sent. -/
def refusing (media : Media) : ArmStatement ν where
  code :=
    flat "return Err(::bindery::ClientError::UnsupportedMediaType(" ++ literal media.mime ++
      flat ".to_string()));"

/-- The statement that makes a form. -/
def formSetup : ArmStatement ν where
  introduces := some ("form", .own)
  code := flat "let mut form = ::reqwest::multipart::Form::new();"

/-- The value of an arm that sends a form. -/
def formSending : ArmStatement ν where
  uses := ["request", "form"]
  code := flat "request.multipart(form)"

/-- What an arm does to send a body. -/
def EncodeArm.armBody (a : EncodeArm) (t : Descriptor) : ArmBody ν :=
  match a.send with
  | .json => { last := sending "request.json(&" t }
  | .form => { last := sending "request.form(&" t }
  | .unsupported => { last := refusing a.media }
  | .multipart parts =>
    { setup := [formSetup], groups := parts.map (·.statements t), last := formSending }

/-- What an arm that sends a body binds: the body, if it can be sent. -/
def EncodeArm.bodies (a : EncodeArm) (t : Descriptor) : List Descriptor :=
  if a.send = .unsupported then [] else [t]

def EncodeArm.pattern (a : EncodeArm) : Code :=
  if a.send = .unsupported then braces (flat "..") else braces (word a.member)

/-- The arm around what it does. -/
def EncodeArm.enclosed (a : EncodeArm) (body : Code) : Code :=
  match a.send with
  | .json => body ++ flat ","
  | .form => body ++ flat ","
  | _ => braces body

/-- A body is a pointer with the words of a name that the arm which sends it has for itself. -/
def HidesHelper (t : Descriptor) : BodySend → Prop
  | .json => Called "request" t
  | .form => Called "request" t
  | .unsupported => False
  | .multipart parts => Called "request" t ∨ parts ≠ [] ∧ Called "form" t

variable {names : ArmNames ν} {t : Descriptor} {a : EncodeArm} {n : String}

theorem SentPart.code_statements (t : Descriptor) (p : SentPart) :
    braces ((p.statements t : List (ArmStatement ν)).flatMap (·.code)) =
      p.code (memberIdent t) := by
  unfold SentPart.statements SentPart.code SentPart.adding SentPart.value
  cases p.required <;> simp

theorem EncodeArm.code_eq (h : a.member = memberIdent t) (className : String) :
    a.code className = modelPath .sibling className ++ flat "::" ++ word a.media.tag ++ a.pattern ++
      flat "=>" ++ a.enclosed ((a.armBody t : ArmBody ν).code braces) := by
  have hclose : flat ")," = flat ")" ++ flat "," := by decide
  unfold EncodeArm.code EncodeArm.pattern EncodeArm.enclosed EncodeArm.armBody ArmBody.code
  cases hsend : a.send with
  | json => simp [sending, h, hclose]
  | form => simp [sending, h, hclose]
  | unsupported => simp [refusing]
  | multipart parts =>
      have hparts : (parts.map (·.statements t) : List (List (ArmStatement ν))).flatMap
          (fun g => braces (g.flatMap (·.code))) = parts.flatMap (·.code (memberIdent t)) := by
        rw [List.flatMap_map]
        exact congrArg (parts.flatMap ·) (funext fun p => p.code_statements t)
      simp [hparts, h, formSetup, formSending]

/-- A name that was there before keeps its meaning beside a member with another name. -/
theorem latest?_beside_iff (hn : names.latest? n = some .own) :
    Assoc.latest? (names ++ memberNames [t]) n = some .own ↔ memberIdent t ≠ n := by
  by_cases he : memberIdent t = n
  · subst he
    rw [latest?_memberIdent (by simp) (List.mem_singleton.2 rfl)]
    simp
  · rw [latest?_of_not_member (by simpa using Ne.symm he), hn]
    simp [he]

theorem understands_sending_iff (call : String) (hn : names.latest? "request" = some .own) :
    Understands (names ++ memberNames [t]) (sending call t) ↔ memberIdent t ≠ "request" := by
  rw [← latest?_beside_iff hn]
  constructor
  · exact fun h => h.own "request" (List.mem_singleton.2 rfl)
  · intro h
    refine ⟨fun n hn => ?_, fun u hu => ?_⟩
    · rwa [List.mem_singleton.1 hn]
    · rw [List.mem_singleton.1 hu]
      exact latest?_memberIdent (by simp) (List.mem_singleton.2 rfl)

/-- A part is taken from the record, unless the record is hidden by the form. -/
theorem allUnderstand_part_iff (p : SentPart) :
    AllUnderstand (names ++ memberNames [t] ++ owned ["form"]) (p.statements t) ↔
      memberIdent t ≠ "form" := by
  have hfound : Assoc.latest? (names ++ memberNames [t] ++ owned ["form"]) (memberIdent t) =
      some (.value (.inr t)) ↔ memberIdent t ≠ "form" :=
    (latest?_inside_iff (by simp) (List.mem_singleton.2 rfl)).trans (not_congr List.mem_singleton)
  rw [← hfound]
  constructor
  · exact fun h => (allUnderstand_cons.1 h).1.members t (List.mem_singleton.2 rfl)
  · intro h
    refine allUnderstand_cons.2 ⟨⟨fun n hn => (by cases hn), fun u hu => ?_⟩,
      allUnderstand_cons.2 ⟨⟨fun n hn => ?_, fun u hu => (by cases hu)⟩, allUnderstand_nil⟩⟩
    · rwa [List.mem_singleton.1 hu]
    · have hown : names ++ memberNames [t] ++ owned ["form"] ++ owned [p.value] =
          names ++ memberNames [t] ++ owned ["form", p.value] := List.append_assoc _ _ _
      exact hown ▸ Code.latest?_owned hn

theorem understood_last_iff {s : ArmStatement ν} :
    ({ last := s } : ArmBody ν).Understood names ↔ Understands names s := by
  constructor
  · intro h
    have hlast := h.last
    rwa [show introduced ([] : List (ArmStatement ν)) = [] from rfl, List.append_nil] at hlast
  · intro h
    refine ⟨allUnderstand_nil, fun g hg => (by cases hg), ?_⟩
    rwa [show introduced ([] : List (ArmStatement ν)) = [] from rfl, List.append_nil]

/-- A form is filled and sent, unless the request is hidden by the record, or the record by the
form. -/
theorem understood_form_iff (parts : List SentPart) (hn : names.latest? "request" = some .own) :
    ({ setup := [formSetup], groups := parts.map (·.statements t), last := formSending } :
        ArmBody ν).Understood (names ++ memberNames [t]) ↔
      memberIdent t ≠ "request" ∧ (parts = [] ∨ memberIdent t ≠ "form") := by
  have hintroduced : introduced [(formSetup : ArmStatement ν)] = owned ["form"] := rfl
  have hrequest : Assoc.latest? (names ++ memberNames [t] ++ owned ["form"]) "request" = some .own ↔
      memberIdent t ≠ "request" := by
    rw [Code.latest?_of_not_mem_owned (by decide), latest?_beside_iff hn]
  constructor
  · intro h
    refine ⟨hrequest.1 (h.last.own "request" List.mem_cons_self), ?_⟩
    cases parts with
    | nil => exact Or.inl rfl
    | cons p ps =>
        have hgroup := h.groups (p.statements t) List.mem_cons_self
        rw [hintroduced] at hgroup
        exact Or.inr ((allUnderstand_part_iff p).1 hgroup)
  · rintro ⟨hne, hform⟩
    refine ⟨allUnderstand_cons.2 ⟨⟨fun n hn => (by cases hn), fun u hu => (by cases hu)⟩,
      allUnderstand_nil⟩, fun g hg => ?_, ⟨fun n hn => ?_, fun u hu => (by cases hu)⟩⟩
    · obtain ⟨p, hp, rfl⟩ := List.mem_map.1 hg
      refine (allUnderstand_part_iff p).2 (hform.resolve_left ?_)
      exact List.ne_nil_of_mem hp
    · rw [hintroduced]
      rcases List.mem_cons.1 hn with rfl | hn
      · exact hrequest.2 hne
      · exact Code.latest?_owned hn

/-- In an arm that sends a body every name stands for what it is meant to, unless the body is a
pointer with the words of a name that the arm has for itself. -/
theorem understood_encode_iff (ht : ∃ pointer, t = .ref pointer)
    (hn : names.latest? "request" = some .own) :
    (a.armBody t).Understood (names ++ memberNames (a.bodies t)) ↔ ¬ HidesHelper t a.send := by
  obtain ⟨pointer, rfl⟩ := ht
  have hrequest : memberIdent (.ref pointer) ≠ "request" ↔ ¬ Called "request" (.ref pointer) :=
    not_congr (memberIdent_ref_eq_iff (by decide))
  have hform : memberIdent (.ref pointer) ≠ "form" ↔ ¬ Called "form" (.ref pointer) :=
    not_congr (memberIdent_ref_eq_iff (by decide))
  unfold EncodeArm.armBody EncodeArm.bodies
  cases hsend : a.send with
  | json => exact understood_last_iff.trans ((understands_sending_iff _ hn).trans hrequest)
  | form => exact understood_last_iff.trans ((understands_sending_iff _ hn).trans hrequest)
  | unsupported =>
      refine iff_of_true (understood_last_iff.2 ⟨fun n hn => ?_, fun u hu => ?_⟩) id
      · cases hn
      · cases hu
  | multipart parts =>
      refine (understood_form_iff parts hn).trans ?_
      rw [hrequest, hform, HidesHelper, not_or, not_and_or, not_not]

end Encode

/-! ## Handlers and client methods -/

section Names

variable {refs : RefTable} {o : Operation} {cs : List ContractParam}

/-- The names that a handler knows where it writes a response. -/
def Handler.known (k : Handler) : ArmNames Input :=
  outer (introduced k.parts ++ introduced k.statements)

/-- The names that a client method knows where it sends the body. -/
def ClientMethod.known (k : ClientMethod) : ArmNames ContractParam :=
  outer (k.entry ++ introduced k.statements)

/-- A handler that writes a file has set its deletion up. -/
theorem cleansUp_of_isFile {k : Handler} (h : handler refs o = .ok k) {e : Status × Variant}
    (he : e ∈ o.responseBody.variants) (hfile : e.2.isFile = true) : k.cleansUp = true := by
  have hany : o.responseBody.variants.any (·.2.isFile) = true := List.any_eq_true.2 ⟨e, he, hfile⟩
  unfold handler at h
  obtain ⟨_, -, h⟩ := bind_eq_ok.1 h
  obtain ⟨_, -, h⟩ := bind_eq_ok.1 h
  dsimp only at h
  split at h
  all_goals
    obtain ⟨_, -, h⟩ := bind_eq_ok.1 h
    obtain ⟨_, -, h⟩ := bind_eq_ok.1 h
    obtain rfl := Except.ok.inj h
    simp only [hany, Bool.or_true]

/-- Where responses are written, the deletion of files is still known under its name. -/
theorem HandlerOf.latest?_cleanup {k : Handler} (h : HandlerOf refs o cs k)
    (hc : k.cleansUp = true) :
    k.known.latest? "cleanup" = some .own := by
  refine latest?_outer (Code.latest?_eq_own (List.mem_append_right _ ?_) fun i hi => ?_)
  · refine List.mem_filterMap.2 ⟨k.setup, List.mem_cons_self, ?_⟩
    simp [Handler.setup, hc]
  · exact h.value_not_mem (by decide) (by decide) i hi

/-- Where the body is sent, the request is known under its name. -/
theorem ClientMethod.latest?_request (k : ClientMethod) :
    k.known.latest? "request" = some .own := by
  have hsends : introduced ((k.sentIn .header).map (·.statement "request")) = [] := by
    rw [introduced, List.filterMap_map]
    exact List.filterMap_eq_nil_iff.2 fun _ _ => rfl
  have hintroduced : introduced k.statements = owned (hiddenNames k.hasQuery .header) := by
    have hcons : introduced k.statements = ("url", .own) ::
        (introduced k.querying ++ ("request", .own) ::
          introduced ((k.sentIn .header).map (·.statement "request"))) := by
      simp [introduced, ClientMethod.statements, ClientMethod.addressing, ClientMethod.requesting]
    rw [hcons, hsends, introduced_querying]
    simp [hiddenNames, owned]
  refine latest?_outer ?_
  rw [hintroduced]
  exact Code.latest?_owned (by simp [hiddenNames])

end Names

/-- An arm of a handler writes a variant. -/
structure WritesMembers (place : Code) (k : Handler) (v : Variant) (a : DispatchArm) : Prop where
  /-- It binds the members by their names, and goes through its statements. -/
  generated : modelPath .sibling k.response ++ flat "::" ++ word v.name ++
    memberPattern v.members ++
    flat "=>" ++ braces ((a.armBody v : ArmBody Input).code id) <:+: place
  /-- A member is called `writer` only as a pointer with this word. -/
  writer : "writer" ∈ v.members.map memberIdent ↔ HidesWriter v
  /-- Where a file is registered, no member is called `cleanup`. -/
  cleanup : v.isFile = true → "cleanup" ∉ v.members.map memberIdent
  /-- Every name stands for what it is meant to, unless the body hides the writer or has the name of
  the headers. -/
  understood : (a.armBody v).Understood (k.known ++ memberNames v.members) ↔
    ¬ HidesWriter v ∧ ¬ HidesHeaders v

/-- An arm of a client method sends a body. -/
structure SendsMember (place : Code) (k : ClientMethod) (className : String)
    (e : Media × Descriptor) (a : EncodeArm) : Prop where
  /-- It binds the body by its name, if it can be sent, and goes through its statements. -/
  generated : modelPath .sibling className ++ flat "::" ++ word e.1.tag ++ a.pattern ++ flat "=>" ++
    a.enclosed ((a.armBody e.2 : ArmBody ContractParam).code braces) <:+: place
  member : a.member = memberIdent e.2
  /-- The body is called by a name that the arm has for itself only as a pointer with this word. -/
  helpers : ∀ n ∈ ["request", "form"], a.member = n ↔ Called n e.2
  /-- Every name stands for what it is meant to, unless the body hides one that the arm uses, or is
  hidden by it. -/
  understood : (a.armBody e.2).Understood (k.known ++ memberNames (a.bodies e.2)) ↔
    ¬ HidesHelper e.2 a.send

section Generated

variable {d : Document} {namePrefix : String} {m : Metadata} {ws : List Warning}
  {s t : SourceModule} {o : Operation}

theorem Handler.arm_infix {k : Handler} {a : DispatchArm} (ha : a ∈ k.arms) (contract : String) :
    a.code k.response <:+: k.code contract := by
  have hmatch : a.code k.response <:+:
      flat "match response" ++ braces (k.arms.flatMap (·.code k.response)) :=
    ((infix_flatMap (f := fun a : DispatchArm => a.code k.response) ha).trans
      (Code.infix_braces _)).trans (List.suffix_append _ _).isInfix
  rw [Handler.code_eq]
  refine List.IsInfix.trans ?_ (List.suffix_append _ _).isInfix
  refine List.IsInfix.trans ?_ (Code.infix_braces _)
  exact hmatch.trans (List.suffix_append _ _).isInfix

theorem BodyEncode.arm_infix {b : BodyEncode} {a : EncodeArm} (ha : a ∈ b.arms) :
    a.code b.className <:+: b.code := by
  have hencode : a.code b.className <:+: flat "request = match request_body" ++
      braces (b.arms.flatMap (·.code b.className)) ++ flat ";" :=
    (((infix_flatMap (f := fun a : EncodeArm => a.code b.className) ha).trans
      (Code.infix_braces _)).trans (List.suffix_append _ _).isInfix).trans
        (List.prefix_append _ _).isInfix
  unfold BodyEncode.code
  split
  · exact hencode
  · exact (hencode.trans (Code.infix_braces _)).trans (List.suffix_append _ _).isInfix

/-- In the arms that are generated for an operation the names of members are kept apart from those
that the arms have for themselves, unless a body is a pointer with the words of such a name. -/
theorem member_bindings (h : d.resolve namePrefix = .ok (m, ws)) (hs : controllerModule m = .ok s)
    (ht : clientModule m = .ok t) (ho : o ∈ m.operations) :
    ∃ k c, handler m.refs o = .ok k ∧ clientMethod m.refs o = .ok c ∧
      List.Forall₂ (fun e a => WritesMembers s.code k e.2 a) o.responseBody.variants k.arms ∧
      Option.Rel (fun b r => List.Forall₂ (SendsMember t.code c r.className) b.content r.arms)
        o.requestBody c.body := by
  obtain ⟨k, hk, hkcode⟩ := exists_handler hs ho
  obtain ⟨c, hc, hccode⟩ := exists_clientMethod ht ho
  obtain ⟨_, -, hkof⟩ := handler_eq_ok hk
  obtain ⟨_, -, hcof⟩ := clientMethod_eq_ok hc
  refine ⟨k, c, hk, hc, ?_, ?_⟩
  · obtain ⟨_, _, _, hrun⟩ := Resolve.exists_run_responseBody h ho
    refine forall₂_imp_mem hkof.arms fun e a he ha hdispatch => ?_
    obtain ⟨r, hd⟩ := Resolve.exists_describes_of_responseBody hrun he
    exact {
      generated := by
        rw [← code_dispatchArm hdispatch]
        exact (Handler.arm_infix ha _).trans hkcode
      writer := writer_mem_idents_iff hd
      cleanup := cleanup_not_mem_idents hd
      understood := understood_dispatch_iff hd fun hfile =>
        hkof.latest?_cleanup (cleansUp_of_isFile hk he hfile) }
  · have hsends : ∀ b r, o.requestBody = some b → c.body = some r → bodyEncode m.refs b = .ok r →
        List.Forall₂ (SendsMember t.code c r.className) b.content r.arms := by
      intro b r hb hr hencode
      obtain ⟨_, _, _, hrun⟩ := Resolve.exists_run_requestBody h ho hb
      obtain ⟨-, -, harms⟩ := bodyEncode_eq_ok hencode
      refine forall₂_imp_mem harms fun e a he ha harm => ?_
      obtain ⟨pointer, hpointer⟩ := Resolve.exists_ref_of_requestBody hrun he
      obtain ⟨hmedia, hmember, -⟩ := encodeArm_eq_ok harm
      exact {
        generated := by
          rw [← hmedia, ← EncodeArm.code_eq hmember]
          exact (BodyEncode.arm_infix ha).trans ((ClientMethod.infix_of_body hr).trans hccode)
        member := hmember
        helpers := by
          rw [hmember, hpointer]
          have hown : ∀ n ∈ ["request", "form"], fieldIdent n = n := by decide
          exact fun n hn => memberIdent_ref_eq_iff (hown n hn)
        understood := understood_encode_iff ⟨pointer, hpointer⟩ c.latest?_request }
    have hbody := hcof.body
    cases hb : o.requestBody with
    | none =>
        rw [hb] at hbody
        cases hr : c.body with
        | none => exact .none
        | some r =>
            rw [hr] at hbody
            cases hbody
    | some b =>
        rw [hb] at hbody
        obtain ⟨r, hencode, hr⟩ := exists_of_rel_some hbody
        rw [hr]
        exact .some (hsends b r hb hr hencode)

theorem member_bindings_reports :
    Resolve.reportDocument.resolve "Api" = .ok (Resolve.reportMetadata, Resolve.reportWarnings) ∧
      ∃ s t, controllerModule Resolve.reportMetadata = .ok s ∧
        clientModule Resolve.reportMetadata = .ok t ∧
        ∃ k c, handler Resolve.reportMetadata.refs Resolve.reportOperation = .ok k ∧
          clientMethod Resolve.reportMetadata.refs Resolve.reportOperation = .ok c ∧
          List.Forall₂ (fun e a => WritesMembers s.code k e.2 a)
            Resolve.reportOperation.responseBody.variants k.arms ∧
          Option.Rel (fun b r => List.Forall₂ (SendsMember t.code c r.className) b.content r.arms)
            Resolve.reportOperation.requestBody c.body := by
  obtain ⟨s, hs⟩ := exists_controllerModule_reports
  obtain ⟨t, ht⟩ := exists_clientModule_reports
  exact ⟨Resolve.resolve_reportDocument, s, t, hs, ht,
    member_bindings Resolve.resolve_reportDocument hs ht List.mem_cons_self⟩

end Generated

/-! ## A document with bodies that are called like helpers -/

section Letters

open Resolve (Progress endpoint jsonBody named operationsOf reference requestBody
  resolve_of_operation responseBody responseVariant run_jsonBody_of_named run_named_record
  run_operation_of run_propertiesOf_cons run_propertiesOf_nil run_reference_eq_ok
  run_requestBody_of run_requestContents_cons run_responseBody_of run_responseHeaders_none
  run_responseVariant_json run_responseVariants_cons run_typeOf_scalar)

abbrev requestPointer : String :=
  "#/components/schemas/Request"

abbrev formPointer : String :=
  "#/components/schemas/Form"

abbrev writerPointer : String :=
  "#/components/schemas/Writer"

/-- The schema of records with a title. -/
def titledSchema : Document.Schema where
  type := some "object"
  properties := [("title", textSchema)]
  required := ["title"]

def pointerContent (pointer : String) : Document.MediaContent where
  schema := some { ref := some pointer }

def letterResponse : Document.Response where
  description := none
  headers := []
  content := [("application/json", pointerContent writerPointer)]

def sendLetter : Document.Operation where
  operationId := some "sendLetter"
  requestBody := some {
    required := true
    content := [("application/json", pointerContent requestPointer),
      ("multipart/form-data", pointerContent formPointer)] }
  responses := [("200", letterResponse)]

/-- A document with records that are called like what arms have for themselves. -/
def letterDocument : Document where
  paths := [("/letters", { post := some sendLetter })]
  components := {
    schemas := [("Request", titledSchema), ("Form", titledSchema), ("Writer", titledSchema)] }

def titled (name : String) : Descriptor :=
  .object (some name) [{ name := "title", type := .primitive .string, required := true }]

def letterBody : RequestBody where
  className := "SendLetterRequest"
  required := true
  content := [(.json, .ref requestPointer), (.multipart, .ref formPointer)]

def writerVariant : Variant where
  name := "Writer"
  headers := none
  payload := .body (.ref writerPointer) false

def letterOperation : Operation where
  path := "/letters"
  method := .post
  operationId := "sendLetter"
  summary := none
  params := []
  requestBody := some letterBody
  responseBody := {
    className := "SendLetterResponse"
    variants := [(.code 200, writerVariant)] }

def requestTable : RefTable where
  entries := [(requestPointer, titled "Request")]

def formTable : RefTable where
  entries := [(requestPointer, titled "Request"), (formPointer, titled "Form")]
  nodup_keys := by decide

def letterTable : RefTable where
  entries := [(requestPointer, titled "Request"), (formPointer, titled "Form"),
    (writerPointer, titled "Writer")]
  nodup_keys := by decide

def letterProgress : Progress where
  table := letterTable
  entered := [requestPointer, formPointer, writerPointer]

def letterMetadata : Metadata where
  namePrefix := "Api"
  operations := [letterOperation]
  refs := letterTable

/-- The record of a schema with a title. -/
theorem run_named_titled (path : List String) (name : String) (σ : Progress) :
    (named letterDocument path titledSchema name).run σ = .ok (titled name, σ) := by
  refine run_named_record (by decide) (by decide) (by decide) ?_
  exact run_propertiesOf_cons (run_typeOf_scalar rfl rfl rfl) run_propertiesOf_nil

theorem run_requestBody_letter :
    (requestBody letterDocument "sendLetter" sendLetter).run {} =
      .ok (some letterBody, { table := formTable, entered := [requestPointer, formPointer] }) := by
  have hrequest : (reference letterDocument [] requestPointer).run {} =
      .ok (.ref requestPointer, { table := requestTable, entered := [requestPointer] }) :=
    (run_reference_eq_ok (by decide) (by decide)).2
      ⟨rfl, _, "Request", titled "Request", _, rfl, rfl, run_named_titled _ _ _, rfl⟩
  have hform : (reference letterDocument [] formPointer).run
      { table := requestTable, entered := [requestPointer] } =
      .ok (.ref formPointer, { table := formTable, entered := [requestPointer, formPointer] }) :=
    (run_reference_eq_ok (by decide) (by decide)).2
      ⟨rfl, _, "Form", titled "Form", _, rfl, rfl, run_named_titled _ _ _, rfl⟩
  refine run_requestBody_of "SendLetter" rfl ?_ rfl rfl
  refine run_requestContents_cons rfl rfl hrequest ?_
  exact run_requestContents_cons rfl rfl hform rfl

theorem run_responseBody_letter :
    (responseBody letterDocument "sendLetter" sendLetter).run
        { table := formTable, entered := [requestPointer, formPointer] } =
      .ok (letterOperation.responseBody, letterProgress) := by
  have hwriter : (reference letterDocument [] writerPointer).run
      { table := formTable, entered := [requestPointer, formPointer] } =
      .ok (.ref writerPointer, letterProgress) :=
    (run_reference_eq_ok (by decide) (by decide)).2
      ⟨rfl, _, "Writer", titled "Writer", _, rfl, rfl, run_named_titled _ _ _, rfl⟩
  have hbody : (jsonBody letterDocument "sendLetter" "SendLetterResponse" (.code 200)
      { ref := some writerPointer }).run
        { table := formTable, entered := [requestPointer, formPointer] } =
      .ok (("Writer", .ref writerPointer), letterProgress) :=
    run_jsonBody_of_named rfl hwriter rfl rfl
  have hvariant : (responseVariant letterDocument "sendLetter" "SendLetterResponse" (.code 200)
      letterResponse).run { table := formTable, entered := [requestPointer, formPointer] } =
      .ok (writerVariant, letterProgress) :=
    run_responseVariant_json rfl hbody (run_responseHeaders_none rfl)
  refine run_responseBody_of "SendLetter" rfl ?_
  exact run_responseVariants_cons rfl hvariant rfl rfl rfl

theorem resolve_letterDocument : letterDocument.resolve "Api" = .ok (letterMetadata, []) := by
  have hes : operationsOf letterDocument =
      [("/letters", .post, { post := some sendLetter }, sendLetter)] := rfl
  have hrun : (endpoint letterDocument
      ("/letters", .post, { post := some sendLetter }, sendLetter)).run {} =
      .ok (letterOperation, letterProgress) :=
    run_operation_of rfl rfl rfl rfl rfl rfl run_requestBody_letter run_responseBody_letter
  exact resolve_of_operation hes rfl hrun

def titledModel (name : String) : Model where
  name := name
  descriptor := some (titled name)
  shape := .record [{
    ident := "title"
    wire := "title"
    type := .scalar .string
    required := true
    format := none }]

def letterResponseModel : Model where
  name := "SendLetterResponse"
  descriptor := some letterOperation.responseBody.sum
  shape := .sum [{ tag := "Writer", members := [("writer", .model "Writer")] }]

def letterRequestModel : Model where
  name := "SendLetterRequest"
  descriptor := some letterBody.sum
  shape := .sum [{ tag := "Json", members := [("request", .model "Request")] },
    { tag := "MultipartForm", members := [("form", .model "Form")] }]

def letterModels : List Model :=
  [upload, titledModel "Request", titledModel "Form", titledModel "Writer", letterResponseModel,
    letterRequestModel]

theorem models_letter : (models letterMetadata).1 = .ok letterModels := by
  have htitled : ∀ name, claimPart letterTable (titled name) =
      claim name (titled name) (.ok (titledModel name).shape) := by
    intro name
    have htitle : fieldOf letterTable
      { name := "title", type := .primitive .string, required := true } =
        .ok _ := fieldOf_scalar (q := .string) rfl rfl
    exact congrArg (claim name _) (map_eq_ok.2 ⟨_, mapM_eq_ok.2 (.cons htitle .nil), rfl⟩)
  have hmember : ∀ pointer name, letterTable.resolve? (.ref pointer) = some (titled name) →
      [Descriptor.ref pointer].mapM (memberOf letterTable) =
        .ok [(memberIdent (.ref pointer), .model name)] := by
    intro pointer name hresolve
    have htype : typeOf letterTable (.ref pointer) = .ok (.model name) :=
      typeOf_eq_model_iff.2 ⟨titled name, hresolve, rfl⟩
    exact mapM_eq_ok.2 (.cons (memberOf_of_typeOf htype) .nil)
  have hresponse : claimPart letterTable letterOperation.responseBody.sum =
      claim "SendLetterResponse" letterOperation.responseBody.sum
        (.ok letterResponseModel.shape) := by
    have hwriter := hmember writerPointer "Writer" rfl
    refine congrArg (claim "SendLetterResponse" _)
      (map_eq_ok.2 ⟨_, mapM_eq_ok.2 (.cons ?_ .nil), rfl⟩)
    exact bind_eq_ok.2 ⟨_, hwriter, rfl⟩
  have hrequest : claimPart letterTable letterBody.sum =
      claim "SendLetterRequest" letterBody.sum (.ok letterRequestModel.shape) := by
    have hjson := hmember requestPointer "Request" rfl
    have hform := hmember formPointer "Form" rfl
    refine congrArg (claim "SendLetterRequest" _) ?_
    refine map_eq_ok.2 ⟨_, mapM_eq_ok.2 (.cons ?_ (.cons ?_ .nil)), rfl⟩
    · exact bind_eq_ok.2 ⟨_, hjson, rfl⟩
    · exact bind_eq_ok.2 ⟨_, hform, rfl⟩
  have hparts : allParts letterMetadata = [titled "Request", .primitive .string, titled "Form",
      .primitive .string, titled "Writer", .primitive .string, letterOperation.responseBody.sum,
      .ref writerPointer, letterBody.sum, .ref requestPointer, .ref formPointer] := rfl
  have hother : ∀ t ∈ [Descriptor.primitive .string, .ref writerPointer, .ref requestPointer,
      .ref formPointer], claimPart letterTable t = pure () := by
    simp [claimPart, modelOf?]
  have hclaims : (allParts letterMetadata).forM (claimPart letterTable) =
      (claim "Request" (titled "Request") (.ok (titledModel "Request").shape) >>= fun _ =>
        claim "Form" (titled "Form") (.ok (titledModel "Form").shape) >>= fun _ =>
          claim "Writer" (titled "Writer") (.ok (titledModel "Writer").shape) >>= fun _ =>
            claim "SendLetterResponse" letterOperation.responseBody.sum
                (.ok letterResponseModel.shape) >>= fun _ =>
              claim "SendLetterRequest" letterBody.sum (.ok letterRequestModel.shape)) := by
    rw [hparts]
    simp only [List.mem_cons, List.not_mem_nil, or_false, forall_eq_or_imp, forall_eq] at hother
    simp [htitled, hresponse, hrequest, hother]
  exact models_of_claims rfl hclaims

/-- The arm that writes the response. -/
def writerArm : DispatchArm where
  tag := "Writer"
  bindings := ["writer"]
  status := .fixed 200
  headersBinding := ""
  headers := []
  body := .json "writer"

/-- The arms that send the bodies. -/
def requestArm : EncodeArm where
  media := .json
  member := "request"
  send := .json

def formArm : EncodeArm where
  media := .multipart
  member := "form"
  send := .multipart [⟨"title", "title", false, true⟩]

theorem exists_controllerModule_letter : ∃ s, controllerModule letterMetadata = .ok s ∧
    writerArm.code "SendLetterResponse" <:+: s.code := by
  have hhandler : ∃ k, handler letterTable letterOperation = .ok k ∧ k.arms = [writerArm] ∧
      k.response = "SendLetterResponse" := ⟨_, rfl, rfl, rfl⟩
  obtain ⟨k, hk, harms, hresponse⟩ := hhandler
  have hmodule : ∃ s, controllerModule letterMetadata = .ok s := ⟨_, rfl⟩
  obtain ⟨s, hs⟩ := hmodule
  obtain ⟨k', hk', hcode⟩ := exists_handler hs List.mem_cons_self
  obtain rfl := Except.ok.inj (hk.symm.trans hk')
  have harm : writerArm ∈ k.arms := by simp [harms]
  refine ⟨s, hs, ?_⟩
  rw [← hresponse]
  exact (Handler.arm_infix harm _).trans hcode

theorem exists_clientModule_letter : ∃ t, clientModule letterMetadata = .ok t ∧
    ∀ a ∈ [requestArm, formArm], a.code "SendLetterRequest" <:+: t.code := by
  have hparams : ∃ cs, contractParams letterOperation = .ok cs := ⟨_, rfl⟩
  have hbody : ∃ r, bodyEncode letterTable letterBody = .ok r ∧ r.arms = [requestArm, formArm] ∧
      r.className = "SendLetterRequest" := ⟨_, rfl, rfl, rfl⟩
  have hwriter : typeOf letterTable (.ref writerPointer) = .ok (.model "Writer") :=
    typeOf_eq_model_iff.2 ⟨titled "Writer", rfl, rfl⟩
  obtain ⟨a, ha⟩ := exists_decodeArm_of_body (s := .code 200) (v := writerVariant) rfl rfl hwriter
  have harms : letterOperation.responseBody.variants.mapM
      (fun e => decodeArm letterTable e.1 e.2) = .ok [a] := mapM_eq_ok.2 (.cons ha .nil)
  obtain ⟨cs, hcs⟩ := hparams
  obtain ⟨r, hr, hrarms, hclass⟩ := hbody
  obtain ⟨c, hc, hcbody⟩ := exists_clientMethod_of_some rfl hcs hr harms
  have hmethods : letterMetadata.operations.mapM (clientMethod letterMetadata.refs) = .ok [c] :=
    mapM_eq_ok.2 (.cons hc .nil)
  obtain ⟨t, ht⟩ := exists_clientModule_of_methods rfl hmethods
  obtain ⟨c', hc', hcode⟩ := exists_clientMethod ht List.mem_cons_self
  obtain rfl := Except.ok.inj (hc.symm.trans hc')
  refine ⟨t, ht, fun a ha => ?_⟩
  rw [← hclass]
  exact (BodyEncode.arm_infix (hrarms ▸ ha)).trans ((ClientMethod.infix_of_body hcbody).trans hcode)

/-- A body called `writer` is hidden by the writer, one called `request` hides the request that is
to send it, and one called `form` is hidden by the form that is to be filled from it. -/
theorem arms_bind_helpers :
    letterDocument.resolve "Api" = .ok (letterMetadata, []) ∧
      (models letterMetadata).1 = .ok letterModels ∧
      (∃ r, contractModule letterMetadata = .ok r) ∧
      (∃ s, controllerModule letterMetadata = .ok s ∧
        writerArm.code "SendLetterResponse" <:+: s.code) ∧
      (∃ t, clientModule letterMetadata = .ok t ∧
        ∀ a ∈ [requestArm, formArm], a.code "SendLetterRequest" <:+: t.code) ∧
      writerArm.code "SendLetterResponse" =
        flat "models::SendLetterResponse::Writer" ++ braces (flat "writer") ++ flat "=>" ++
          braces (flat "let writer = ::bindery::ResponseWriter::from_code(200)?;" ++
            flat "writer.json(&writer)") ∧
      requestArm.code "SendLetterRequest" =
        flat "models::SendLetterRequest::Json" ++ braces (flat "request") ++
          flat "=> request.json(&request)," ∧
      formArm.code "SendLetterRequest" =
        flat "models::SendLetterRequest::MultipartForm" ++ braces (flat "form") ++ flat "=>" ++
          braces (flat "let mut form = ::reqwest::multipart::Form::new();" ++
            braces (flat "let value = &form.title; form = form.text(" ++ literal "title" ++
              flat ", value.to_string());") ++
            flat "request.multipart(form)") :=
  ⟨resolve_letterDocument, models_letter, ⟨_, rfl⟩, exists_controllerModule_letter,
    exists_clientModule_letter, by decide +kernel, by decide +kernel, by decide +kernel⟩

end Letters

end Emit
end ApiContract
