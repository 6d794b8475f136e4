import ApiContract.Proofs.HeaderExchange
import ApiContract.Proofs.Latest

/-!
# Responses as they are written

**Input:** a status, header fields that are written one after another, and how the response is
finished.

A field that is written replaces an earlier one of its name in any letter case, and one that is
refused leaves the earlier one.  So the writer holds the latest value that was taken for each name.
What finishes a response adds the body, and with it a content type in place of one that was written.

**Results:**

* `values_insert`: a value put to a name is the only one of this name;
* `write_eq`: a field that is refused leaves the writer as it was;
* `values_writeFields`: after some fields a name has the latest value that was taken for it;
* `written_response`: status, header fields and body of a response.
-/

namespace ApiContract

/-! ## All values of a name -/

/-- The values of a name in any letter case, in their order. -/
def Headers.values (h : Headers) (name : String) : List ByteArray :=
  (h.entries.filter fun e => e.1 == Text.asciiLower name).map (·.2)

/-- A value put to a name is the only one of this name, and changes no other. -/
theorem Headers.values_insert (h : Headers) (name name' : String) (value : ByteArray) :
    (h.insert name value).values name' =
      if Text.asciiLower name' = Text.asciiLower name then [value] else h.values name' := by
  rw [values, insert, Assoc.drop, List.filter_append, List.filter_filter, values]
  split
  · rename_i hsame
    have hnone : h.entries.filter (fun e => e.1 == Text.asciiLower name' &&
        !(e.1 == Text.asciiLower name)) = [] := by
      rw [List.filter_eq_nil_iff, hsame]
      intro e _
      cases e.1 == Text.asciiLower name
      · decide
      · decide
    rw [hnone, hsame]
    simp
  · rename_i hother
    have hkept : ∀ e : String × ByteArray, (e.1 == Text.asciiLower name' &&
        !(e.1 == Text.asciiLower name)) = (e.1 == Text.asciiLower name') := by
      intro e
      by_cases he : e.1 = Text.asciiLower name'
      · have hne : (e.1 == Text.asciiLower name) = false := by simpa [he] using hother
        rw [hne, Bool.not_false, Bool.and_true]
      · have hne : (e.1 == Text.asciiLower name') = false := by simpa using he
        rw [hne, Bool.false_and]
    have hnew : (Text.asciiLower name == Text.asciiLower name') = false := by
      simpa using Ne.symm hother
    rw [funext hkept, List.filter_singleton, hnew]
    simp

namespace ResponseWriter

/-! ## One field -/

/-- A header field that is to be written. -/
structure Field where
  name : String
  value : String
deriving DecidableEq

namespace Field

/-- A field that a writer takes: its name is one of a header field, and its text has no control
characters but tabs. -/
def Fits (f : Field) : Prop :=
  (Headers.name? f.name).isSome = true ∧ Writable f.value

instance (f : Field) : Decidable f.Fits :=
  inferInstanceAs (Decidable (_ ∧ _))

/-- Writes a field: whether it was taken, and the writer afterwards. -/
def write (f : Field) (w : ResponseWriter) : Except HandlerError Unit × ResponseWriter :=
  ((setHeader f.name f.value).run).run w

section Write

variable {f : Field}

/-- A field that is refused leaves the writer as it was. -/
theorem write_eq (f : Field) (w : ResponseWriter) : f.write w =
    match w.header f.name f.value with
    | .ok w' => (.ok (), w')
    | .error e => (.error e, w) := by
  unfold write header setHeader
  cases Headers.name? f.name with
  | none => rfl
  | some _ =>
      cases Headers.isValue f.value.toUTF8 with
      | false => rfl
      | true => rfl

/-- A field is refused under its name. -/
theorem header_of_not_fits (h : ¬ f.Fits) (w : ResponseWriter) :
    w.header f.name f.value = .error (.invalidHeader f.name) := by
  rw [header_eq]
  cases hname : Headers.name? f.name with
  | none => rfl
  | some _ =>
      have hvalue : ¬ Headers.isValue f.value.toUTF8 = true := by
        rw [isValue_toUTF8_iff]
        exact fun hvalue => h ⟨by rw [hname]; rfl, hvalue⟩
      exact if_neg hvalue

theorem write_of_fits (h : f.Fits) (w : ResponseWriter) : f.write w =
    (.ok (), { w with headers := w.headers.insert f.name f.value.toUTF8 }) := by
  rw [write_eq, header_eq_ok_iff.2 ⟨h, rfl⟩]

theorem write_of_not_fits (h : ¬ f.Fits) (w : ResponseWriter) :
    f.write w = (.error (.invalidHeader f.name), w) := by
  rw [write_eq, header_of_not_fits h]

end Write

end Field

/-! ## Fields one after another -/

/-- Writes fields one after another, also behind one that is refused: each with what became of it,
and the writer afterwards. -/
def writeFields (w : ResponseWriter) :
    List Field → List (Field × Except HandlerError Unit) × ResponseWriter
  | [] => ([], w)
  | f :: fs =>
    let (result, w) := f.write w
    let (results, w) := writeFields w fs
    ((f, result) :: results, w)

/-- The values of the fields that were taken, by name in small letters. -/
def taken (results : List (Field × Except HandlerError Unit)) : Assoc String String :=
  (results.filter (·.2.toBool)).map fun r => (Text.asciiLower r.1.name, r.1.value)

section Fields

variable {w : ResponseWriter} {f : Field} {fs : List Field}

theorem taken_cons_of_fits (h : f.Fits) : taken (writeFields w (f :: fs)).1 =
    (Text.asciiLower f.name, f.value) ::
      taken (writeFields { w with headers := w.headers.insert f.name f.value.toUTF8 } fs).1 := by
  rw [writeFields, Field.write_of_fits h]
  rfl

theorem taken_cons_of_not_fits (h : ¬ f.Fits) :
    taken (writeFields w (f :: fs)).1 = taken (writeFields w fs).1 := by
  rw [writeFields, Field.write_of_not_fits h]
  rfl

theorem writeFields_append (w : ResponseWriter) (fs gs : List Field) : writeFields w (fs ++ gs) =
    ((writeFields w fs).1 ++ (writeFields (writeFields w fs).2 gs).1,
      (writeFields (writeFields w fs).2 gs).2) := by
  induction fs generalizing w with
  | nil => rfl
  | cons f fs ih =>
      rw [List.cons_append, writeFields, writeFields]
      dsimp only
      rw [ih]
      rfl

theorem fields_writeFields (w : ResponseWriter) (fs : List Field) :
    (writeFields w fs).1.map (·.1) = fs := by
  induction fs generalizing w with
  | nil => rfl
  | cons f fs ih => exact congrArg (f :: ·) (ih _)

/-- A field that is refused can be left out. -/
theorem writeFields_of_not_fits (h : ¬ f.Fits) (w : ResponseWriter) (fs gs : List Field) :
    (writeFields w (fs ++ f :: gs)).2 = (writeFields w (fs ++ gs)).2 := by
  rw [writeFields_append, writeFields_append, writeFields, Field.write_of_not_fits h]

theorem status_writeFields (w : ResponseWriter) (fs : List Field) :
    (writeFields w fs).2.status = w.status := by
  induction fs generalizing w with
  | nil => rfl
  | cons f fs ih =>
      rw [writeFields]
      by_cases h : f.Fits
      · rw [Field.write_of_fits h]
        exact ih _
      · rw [Field.write_of_not_fits h]
        exact ih w

/-- Which fields are taken does not depend on the writer. -/
theorem result_of_mem {result : Except HandlerError Unit} (h : (f, result) ∈ (writeFields w fs).1) :
    result = if f.Fits then .ok () else .error (.invalidHeader f.name) := by
  induction fs generalizing w with
  | nil => cases h
  | cons g fs ih =>
      rw [writeFields] at h
      rcases List.mem_cons.1 h with he | h
      · obtain ⟨rfl, rfl⟩ := Prod.mk.inj he
        split
        · rename_i hfits
          rw [Field.write_of_fits hfits]
        · rename_i hfits
          rw [Field.write_of_not_fits hfits]
      · exact ih h

/-- A name has the latest value that was taken for it, else the values that it had. -/
theorem values_writeFields (w : ResponseWriter) (fs : List Field) (name : String) :
    (writeFields w fs).2.headers.values name =
      match (taken (writeFields w fs).1).latest? (Text.asciiLower name) with
      | some value => [value.toUTF8]
      | none => w.headers.values name := by
  induction fs generalizing w with
  | nil => rfl
  | cons f fs ih =>
      by_cases h : f.Fits
      · rw [taken_cons_of_fits h, writeFields, Field.write_of_fits h]
        refine (ih _).trans ?_
        rw [← List.singleton_append, Assoc.latest?_append]
        cases hlater : (taken (writeFields
            { w with headers := w.headers.insert f.name f.value.toUTF8 } fs).1).latest?
            (Text.asciiLower name) with
        | some value => rfl
        | none =>
            rw [Option.none_or]
            dsimp only
            rw [Headers.values_insert]
            by_cases hname : Text.asciiLower name = Text.asciiLower f.name
            · simp [Assoc.latest?, hname]
            · have hb : (Text.asciiLower name == Text.asciiLower f.name) = false := by
                simpa using hname
              simp [Assoc.latest?, hname, List.lookup_cons, hb]
      · rw [taken_cons_of_not_fits h, writeFields, Field.write_of_not_fits h]
        exact ih w

end Fields

/-! ## Finishing -/

/-- How a response is finished. -/
inductive Finish
  | empty
  /-- With JSON; `none` is a value that has no JSON text. -/
  | json (value : Option Json.Value)
  /-- With the content of a file on a disk. -/
  | file (d : Disk) (path : FilePath)

namespace Finish

/-- Finishes a response. -/
def run (w : ResponseWriter) : Finish → Except HandlerError Response
  | empty => .ok w.empty
  | json value => w.json value
  | file d path => w.file d path

/-- The body of the response, if it can be finished. -/
def body? : Finish → Option ByteArray
  | empty => some .empty
  | json value => value.map fun v => v.compact.toUTF8
  | file d path => (d.read path).toOption

/-- The content type that comes with the body. -/
def contentType? : Finish → Option String
  | empty => none
  | json _ => some "application/json"
  | file .. => some "application/octet-stream"

/-- The value that comes with the body under a name. -/
def fixed? (f : Finish) (name : String) : Option String :=
  if Text.asciiLower name = "content-type" then f.contentType? else none

variable {w : ResponseWriter} {r : Response}

/-- A response is finished if there is a body for it. -/
theorem run_eq (f : Finish) (w : ResponseWriter) : (f.run w).toOption = f.body?.map fun body =>
    match f.contentType? with
    | none => { w.empty with body }
    | some type => w.withBody type body := by
  cases f with
  | empty => rfl
  | json value =>
      cases value with
      | none => rfl
      | some v => rfl
  | file d path =>
      rw [run, body?, ResponseWriter.file]
      cases d.read path with
      | ok content => rfl
      | error fault => rfl

end Finish

/-! ## Responses -/

/-- What becomes of a writer that gets fields and is finished. -/
structure Writes (code : Int) (w : ResponseWriter) (fs : List Field) (f : Finish) : Prop where
  /-- All fields are tried in their order. -/
  tried : (writeFields w fs).1.map (·.1) = fs
  /-- A field is taken if its name and its text allow it, and else refused under its name. -/
  results : ∀ field result, (field, result) ∈ (writeFields w fs).1 →
    result = if field.Fits then .ok () else .error (.invalidHeader field.name)
  /-- A field that is refused changes nothing: it is as if it had not been tried. -/
  refused : ∀ before field after, fs = before ++ field :: after → ¬ field.Fits →
    (field.write (writeFields w before).2).2 = (writeFields w before).2 ∧
      (writeFields w fs).2 = (writeFields w (before ++ after)).2
  /-- The response can be finished if there is a body for it, and then this is its body. -/
  body : (f.run (writeFields w fs).2).toOption.map (·.body) = f.body?
  status : ∀ r, f.run (writeFields w fs).2 = .ok r → (r.status : Int) = code
  /-- A name has no value or one: the one that comes with the body, or else the latest that was
  taken for it. -/
  values : ∀ r, f.run (writeFields w fs).2 = .ok r → ∀ name, r.headers.values name =
    (((f.fixed? name).or ((taken (writeFields w fs).1).latest? (Text.asciiLower name))).map
      (·.toUTF8)).toList

section Responses

variable {w : ResponseWriter} {f : Finish} {r : Response}

theorem Finish.run_eq_ok (h : f.run w = .ok r) : ∃ body, f.body? = some body ∧
    r = match f.contentType? with
      | none => { w.empty with body }
      | some type => w.withBody type body := by
  have heq := f.run_eq w
  rw [h] at heq
  obtain ⟨body, hbody, hr⟩ := Option.map_eq_some_iff.1 heq.symm
  exact ⟨body, hbody, hr.symm⟩

theorem Finish.body_run (f : Finish) (w : ResponseWriter) :
    (f.run w).toOption.map (·.body) = f.body? := by
  rw [f.run_eq w, Option.map_map]
  refine (Option.map_congr fun body _ => ?_).trans Option.map_id'
  rw [Function.comp_apply]
  split
  · rfl
  · rfl

theorem Finish.status_of_run (h : f.run w = .ok r) : r.status = w.status := by
  obtain ⟨body, -, rfl⟩ := Finish.run_eq_ok h
  split
  · rfl
  · rfl

/-- What finishes a response leaves all values but the one that comes with the body. -/
theorem Finish.values_of_run (h : f.run w = .ok r) (name : String) : r.headers.values name =
    match f.fixed? name with
    | some value => [value.toUTF8]
    | none => w.headers.values name := by
  obtain ⟨body, -, rfl⟩ := Finish.run_eq_ok h
  rw [fixed?]
  cases f.contentType? with
  | none =>
      rw [ite_self]
      rfl
  | some type =>
      have hlower : Text.asciiLower "content-type" = "content-type" := by decide
      refine (Headers.values_insert w.headers "content-type" name type.toUTF8).trans ?_
      rw [hlower]
      split
      · rfl
      · rfl

end Responses

/-- With a status of three digits a response begins, and it gets the latest fields that were taken,
the content type of its body, and its body. -/
theorem written_response (code : Int) (fs : List Field) (f : Finish) :
    ((∃ w, ofCode code = .ok w) ↔ 100 ≤ code ∧ code < 1000) ∧
      ∀ w, ofCode code = .ok w → Writes code w fs f := by
  constructor
  · unfold ofCode
    split
    · rename_i hcode
      exact ⟨fun _ => hcode, fun _ => ⟨_, rfl⟩⟩
    · rename_i hcode
      exact ⟨nofun, fun h => absurd h hcode⟩
  · intro w hw
    have hnew : 0 ≤ code ∧ w = { status := code.toNat } := by
      unfold ofCode at hw
      split at hw
      · rename_i hcode
        exact ⟨by omega, (Except.ok.inj hw).symm⟩
      · cases hw
    obtain ⟨hcode, rfl⟩ := hnew
    exact
      { tried := fields_writeFields _ fs
        results := fun _ _ => result_of_mem
        refused := by
          rintro before field after rfl hfits
          exact ⟨by rw [Field.write_of_not_fits hfits], writeFields_of_not_fits hfits _ _ _⟩
        body := f.body_run _
        status := by
          intro r hr
          rw [Finish.status_of_run hr, status_writeFields]
          exact Int.toNat_of_nonneg hcode
        values := by
          intro r hr name
          rw [Finish.values_of_run hr, values_writeFields]
          cases f.fixed? name with
          | some value => rfl
          | none =>
              cases (taken (writeFields _ fs).1).latest? (Text.asciiLower name) with
              | some value => rfl
              | none => rfl }

/-- Fields of two names, some of which are refused. -/
def pageFields : List Field :=
  [⟨"X-Next", "7"⟩, ⟨"content-type", "text/plain"⟩, ⟨"x-next", "line\nbreak"⟩, ⟨"X-NEXT", "8"⟩,
    ⟨"x next", "9"⟩]

theorem written_response_page : ofCode 201 = .ok { status := 201 } ∧
    ∃ r, (Finish.json (some (.list []))).run (writeFields { status := 201 } pageFields).2 = .ok r ∧
      r.status = 201 ∧ r.headers.values "x-next" = ["8".toUTF8] ∧
      r.headers.values "Content-Type" = ["application/json".toUTF8] ∧
      r.headers.values "x next" = [] ∧ r.body = "[]".toUTF8 := by
  have hcode : ofCode 201 = .ok { status := 201 } := rfl
  have hwrites := (written_response 201 pageFields (.json (some (.list [])))).2 _ hcode
  have hrun : ∃ r,
    (Finish.json (some (.list []))).run (writeFields { status := 201 } pageFields).2 =
      .ok r := ⟨_, rfl⟩
  obtain ⟨r, hr⟩ := hrun
  have hstatus := hwrites.status r hr
  have hvalues := hwrites.values r hr
  have hbody := hwrites.body
  rw [hr] at hbody
  refine ⟨hcode, r, hr, by omega, ?_, ?_, ?_, ?_⟩
  · rw [hvalues]
    decide
  · rw [hvalues]
    decide
  · rw [hvalues]
    decide
  · exact Option.some.inj hbody

end ResponseWriter
end ApiContract
