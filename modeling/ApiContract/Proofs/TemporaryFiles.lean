import ApiContract.Disk.Temporary
import ApiContract.Service.Cleanup
import ApiContract.Proofs.Digits
import ApiContract.Proofs.Disks
import ApiContract.Proofs.FilePaths

/-!
# Files that are made and removed

**Input:** a disk, and a path under which nothing stands.

A file that is made there can be written and read, and removing it gives the disk as it was, with
everything in its order.

**Results:**

* `Free`: a path means a place where a file may be made, and nothing stands there yet;
* `makeTemporary_eq_ok`: a temporary file is made where nothing stood;
* `Free.write`, `Free.read`, `Free.remove`: what is done to a file that was made there succeeds, and
  its removal takes it back.
-/

namespace ApiContract

namespace Assoc

variable {κ α : Type} [BEq κ] [LawfulBEq κ] {k : κ}

/-- Of two values for one key the second stays. -/
theorem put_put (k : κ) (v w : α) (a : Assoc κ α) : (a.put k v).put k w = a.put k w := by
  induction a with
  | nil => simp [put]
  | cons e rest ih =>
      obtain ⟨j, u⟩ := e
      by_cases h : j = k
      · simp [put, h]
      · simp [put, h, ih]

/-- A key that was added is left out again without a trace. -/
theorem drop_put (v : α) {a : Assoc κ α} (h : a.get? k = none) : (a.put k v).drop k = a := by
  induction a with
  | nil => simp [put, drop]
  | cons e rest ih =>
      obtain ⟨j, u⟩ := e
      have hne : k ≠ j := by
        rintro rfl
        simp [get?] at h
      have hb : (k == j) = false := by simpa using hne
      have hrest : Assoc.get? rest k = none := by simpa [get?, List.lookup_cons, hb] using h
      simpa [put, drop, hne.symm] using ih hrest

end Assoc

namespace Disk

/-! ## Where a file may be made -/

/-- A path means a place where a file may be made, and nothing stands there yet. -/
structure Free (d : Disk) (path : FilePath) (p : Place) : Prop where
  filePlace : d.filePlace path = .ok p
  vacant : d.at? p = none

namespace Free

variable {d : Disk} {path : FilePath} {p : Place} {content : ByteArray}

theorem ne_nil (h : d.Free path p) : p ≠ [] := by
  rintro rfl
  cases h.vacant

theorem place (h : d.Free path p) : d.place path = .ok p :=
  (filePlace_eq_ok h.filePlace).1

theorem read (h : d.Free path p) : (d.put p (.file content)).read path = .ok content := by
  obtain ⟨hplace, hs, hfree⟩ := filePlace_eq_ok h.filePlace
  exact read_put hplace hs hfree

/-- The file that was made can be given another content. -/
theorem write (h : d.Free path p) (old new : ByteArray) :
    (d.put p (.file old)).write path new = .ok (d.put p (.file new)) := by
  obtain ⟨hplace, hs, hfree⟩ := filePlace_eq_ok h.filePlace
  have hat : (d.put p (.file old)).at? p = some (.file old) := at?_put_self h.ne_nil _
  -- the directory around the file is another place
  have hparent : d.holdsDirectory p.dropLast = true := by
    obtain ⟨q, hq, hrest⟩ := Emit.bind_eq_ok.1 h.filePlace
    obtain rfl := Except.ok.inj (hq.symm.trans hplace)
    split at hrest
    · cases hrest
    · split at hrest
      · assumption
      · cases hrest
  have hne : p.dropLast ≠ p := by
    intro he
    have hlength := congrArg List.length he
    have hpos := List.length_pos_iff.2 h.ne_nil
    rw [List.length_dropLast] at hlength
    omega
  have hfile : (d.put p (.file old)).filePlace path = .ok p := by
    unfold Disk.filePlace
    rw [(keeps_put hfree _).place hplace]
    have hhere : (d.put p (.file old)).holdsDirectory p = false := by
      rw [holdsDirectory, hat]
      rfl
    have haround : (d.put p (.file old)).holdsDirectory p.dropLast = true := by
      rw [holdsDirectory, at?_put_of_ne hne]
      exact hparent
    simp only [bind, Except.bind, hs, hhere, haround]
    rfl
  have hput : (d.put p (.file old)).put p (.file new) = d.put p (.file new) := by
    simp only [put, Assoc.put_put]
  unfold Disk.write
  rw [hfile, ← hput]
  rfl

/-- The file that was made is found. -/
theorem find_put (h : d.Free path p) :
    (d.put p (.file content)).find path = .ok (p, .file content) := by
  obtain ⟨hplace, hs, hfree⟩ := filePlace_eq_ok h.filePlace
  exact find_file_iff.2 ⟨(keeps_put hfree _).place hplace, at?_put_self h.ne_nil _, hs⟩

/-- When the file is removed, the disk is as it was before the file was made. -/
theorem remove (h : d.Free path p) : (d.put p (.file content)).remove path = .ok d := by
  have hvacant : d.entries.get? p = none := by
    have hat := h.vacant
    rwa [at?, if_neg (by simpa using h.ne_nil)] at hat
  have hdrop : (d.put p (.file content)).drop p = d := by
    simp only [put, drop, Assoc.drop_put _ hvacant]
  unfold Disk.remove
  rw [h.find_put]
  exact congrArg Except.ok hdrop

/-- The removal that was put off takes the file back and does not fail. -/
theorem run_removeFile (h : d.Free path p) :
    Cleanup.Action.run (d.put p (.file content)) (.removeFile path) = (d, false) := by
  rw [Cleanup.Action.run, h.remove]

end Free

/-! ## Temporary files -/

section Temporary

variable {d d' : Disk} {start ending : String} {path : FilePath}

/-- A name that holds a digit is no dot or pair of dots. -/
theorem isName_of_digit {n : List Char} (hslash : '/' ∉ n) {c : Char} (hc : c ∈ n)
    (hdigit : c.isDigit = true) : FilePath.IsName n where
  noSlash := hslash
  notSilent := by
    have hdot : c ≠ '.' := by
      rintro rfl
      cases hdigit
    cases n with
    | nil => cases hc
    | cons a rest =>
        rw [FilePath.isSilent, List.isEmpty_cons, Bool.false_or, decide_eq_false_iff_not]
        intro he
        rw [he, List.mem_singleton] at hc
        exact hdot hc
  notParent := by
    rintro rfl
    have hdot : c = '.' := by simpa using hc
    rw [hdot] at hdigit
    cases hdigit

theorem exists_digit_of_temporaryName (start ending : String) (n : Nat) :
    ∃ c ∈ (temporaryName start ending n).toList, c.isDigit = true := by
  have hne : Nat.toDigits 10 (100000 + n) ≠ [] := Nat.toDigits_ne_nil
  obtain ⟨c, hc⟩ := List.exists_mem_of_ne_nil _ hne
  refine ⟨c, ?_, Decimal.isDigit_toDigits _ c hc⟩
  have hshown : (toString (100000 + n)).toList = Nat.toDigits 10 (100000 + n) :=
    Nat.toList_repr
  simp only [temporaryName, String.toList_append, List.mem_append, hshown]
  exact Or.inl (Or.inr hc)

/-- The path of a temporary file with a given name. -/
def temporaryPath (name : String) : FilePath :=
  ⟨"/" ++ String.intercalate "/" (temporaryPlace ++ [name])⟩

/-- The path means a place among the temporary files, wherever paths begin. -/
theorem placeOf_temporaryPath {name : String} (h : FilePath.IsName name.toList) (home : Place) :
    placeOf home (temporaryPath name) = temporaryPlace ++ [name] := by
  have hpath : temporaryPath name = FilePath.ofChars ("/tmp/".toList ++ name.toList) := by
    have htext : String.intercalate "/" (temporaryPlace ++ [name]) = "tmp" ++ "/" ++ name := rfl
    rw [temporaryPath, htext, FilePath.ofChars, String.ofList_append, String.ofList_toList,
      String.ofList_toList]
    refine congrArg FilePath.mk (String.toList_injective ?_)
    simp only [String.toList_append]
    rfl
  have hstem : FilePath.IsStem "/tmp/".toList := Or.inr ⟨"/tmp".toList, rfl⟩
  have hnames : (temporaryPath name).names = temporaryPlace ++ [name] := by
    rw [hpath, FilePath.names_append hstem (FilePath.startLength_of_isName h),
      FilePath.names_of_isName h, String.ofList_toList]
    rfl
  have habsolute : (temporaryPath name).isAbsolute = true := by
    rw [hpath, FilePath.isAbsolute_ofChars_append (by decide)]
    rfl
  have hparent : name ≠ ".." := by
    rintro rfl
    exact h.notParent rfl
  rw [placeOf, if_pos habsolute, hnames]
  simp [goTo, temporaryPlace, hparent]

/-- A temporary file is empty, and stands where nothing stood. -/
theorem makeTemporary_eq_ok (h : d.makeTemporary start ending = .ok (d', path)) :
    ∃ p, d.Free path p ∧ d' = d.put p (.file .empty) := by
  unfold makeTemporary at h
  split at h
  · cases h
  · rename_i n hn
    dsimp only at h
    split at h
    · cases h
    · rename_i hname
      split at h
      · rename_i d₁ hwrite
        obtain ⟨rfl, rfl⟩ := Prod.mk.inj (Except.ok.inj h)
        obtain ⟨p, hp, hd⟩ := Emit.bind_eq_ok.1 hwrite
        refine ⟨p, ⟨hp, ?_⟩, (Except.ok.inj hd).symm⟩
        have hslash : '/' ∉ (temporaryName start ending n).toList := by
          simpa using hname
        obtain ⟨c, hc, hdigit⟩ := exists_digit_of_temporaryName start ending n
        have hplace := place_eq_ok (filePlace_eq_ok hp).1
        rw [hplace]
        have hfree := List.find?_some hn
        refine Eq.trans ?_ (Option.isNone_iff_eq_none.1 hfree)
        exact congrArg d.at? (placeOf_temporaryPath (isName_of_digit hslash hc hdigit) d.home)
      · cases h

end Temporary

end Disk
end ApiContract
