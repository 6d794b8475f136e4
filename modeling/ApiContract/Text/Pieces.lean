/-!
# Pieces of a text

**Input:** a text, as characters or bytes, and the marks that separate its pieces.

**Results:** `pieces` gives the pieces in their order, empty ones too.  There is always at least
one, no piece holds a mark, and a text without marks is its only piece.  `cut` cuts a text at its
first mark.
-/

namespace ApiContract
namespace Text

variable {α : Type}

/-! ## The first mark -/

/-- A text cut at its first mark, behind what is in `done`, in reverse order. -/
def cutOnto (isMark : α → Bool) (done : List α) : List α → List α × Option (List α)
  | [] => (done.reverse, none)
  | a :: s => if isMark a then (done.reverse, some s) else cutOnto isMark (a :: done) s

/-- What stands before the first mark, and what follows it if there is one. -/
def cut (isMark : α → Bool) (s : List α) : List α × Option (List α) :=
  cutOnto isMark [] s

theorem cutOnto_append {isMark : α → Bool} {s : List α} {a : α} (hs : ∀ b ∈ s, isMark b = false)
    (ha : isMark a = true) (done rest : List α) :
    cutOnto isMark done (s ++ a :: rest) = (done.reverse ++ s, some rest) := by
  induction s generalizing done with
  | nil => simp [cutOnto, ha]
  | cons b s ih =>
    rw [List.forall_mem_cons] at hs
    simp [cutOnto, hs.1, ih hs.2]

/-- A text is cut at a mark behind a text without marks. -/
theorem cut_append {isMark : α → Bool} {s : List α} {a : α} (hs : ∀ b ∈ s, isMark b = false)
    (ha : isMark a = true) (rest : List α) : cut isMark (s ++ a :: rest) = (s, some rest) :=
  cutOnto_append hs ha [] rest

/-! ## All pieces -/

/-- The pieces of a text, behind those in `done` and the begun piece `begun`, which are in reverse
order. -/
def piecesOnto (isMark : α → Bool) (done : List (List α)) (begun : List α) :
    List α → List (List α)
  | [] => (begun.reverse :: done).reverse
  | a :: s =>
    if isMark a then piecesOnto isMark (begun.reverse :: done) [] s
    else piecesOnto isMark done (a :: begun) s

/-- The pieces of a text between its marks. -/
def pieces (isMark : α → Bool) (s : List α) : List (List α) :=
  piecesOnto isMark [] [] s

/-- Puts a text to the front of the first piece. -/
def beginWith (p : List α) : List (List α) → List (List α)
  | q :: qs => (p ++ q) :: qs
  | [] => [p]

theorem beginWith_nil_of_ne_nil {ps : List (List α)} (h : ps ≠ []) : beginWith [] ps = ps := by
  cases ps with
  | nil => exact absurd rfl h
  | cons p ps => rfl

theorem piecesOnto_ne_nil (isMark : α → Bool) (done : List (List α)) (begun s : List α) :
    piecesOnto isMark done begun s ≠ [] := by
  induction s generalizing done begun with
  | nil => simp [piecesOnto]
  | cons a s ih =>
    rw [piecesOnto]
    split
    · exact ih _ _
    · exact ih _ _

/-- There is always a piece. -/
theorem pieces_ne_nil (isMark : α → Bool) (s : List α) : pieces isMark s ≠ [] :=
  piecesOnto_ne_nil isMark [] [] s

theorem pieces_nil (isMark : α → Bool) : pieces isMark [] = [[]] :=
  rfl

/-- One more element in front, given how pieces of the rest go behind others. -/
theorem pieces_cons_of {isMark : α → Bool} {s : List α} (a : α)
    (behind : ∀ done begun, piecesOnto isMark done begun s =
      done.reverse ++ beginWith begun.reverse (pieces isMark s)) :
    pieces isMark (a :: s) =
      if isMark a then [] :: pieces isMark s else beginWith [a] (pieces isMark s) := by
  rw [pieces, piecesOnto]
  by_cases ha : isMark a = true
  · rw [if_pos ha, if_pos ha, behind]
    simp [beginWith_nil_of_ne_nil (pieces_ne_nil isMark s)]
  · rw [if_neg ha, if_neg ha, behind]
    simp

theorem piecesOnto_eq (isMark : α → Bool) (done : List (List α)) (begun s : List α) :
    piecesOnto isMark done begun s = done.reverse ++ beginWith begun.reverse (pieces isMark s) := by
  induction s generalizing done begun with
  | nil => simp [piecesOnto, pieces, beginWith]
  | cons a s ih =>
    rw [pieces_cons_of a ih, piecesOnto]
    by_cases ha : isMark a = true
    · rw [if_pos ha, if_pos ha, ih, List.reverse_nil,
        beginWith_nil_of_ne_nil (pieces_ne_nil isMark s)]
      simp [beginWith]
    · rw [if_neg ha, if_neg ha, ih]
      cases pieces isMark s <;> simp [beginWith]

theorem pieces_cons (isMark : α → Bool) (a : α) (s : List α) :
    pieces isMark (a :: s) =
      if isMark a then [] :: pieces isMark s else beginWith [a] (pieces isMark s) :=
  pieces_cons_of a (fun done begun => piecesOnto_eq isMark done begun s)

/-- No piece holds a mark. -/
theorem not_isMark_of_mem_pieces {isMark : α → Bool} {s p : List α} (h : p ∈ pieces isMark s) :
    ∀ a ∈ p, isMark a = false := by
  induction s generalizing p with
  | nil => simp_all [pieces_nil]
  | cons a s ih =>
    rw [pieces_cons] at h
    by_cases ha : isMark a = true
    · rw [if_pos ha] at h
      rcases List.mem_cons.1 h with rfl | h
      · simp
      · exact ih h
    · rw [if_neg ha] at h
      cases hp : pieces isMark s with
      | nil => exact absurd hp (pieces_ne_nil isMark s)
      | cons q qs =>
        rw [hp] at h ih
        rcases List.mem_cons.1 h with rfl | h
        · intro b hb
          rcases List.mem_cons.1 hb with rfl | hb
          · simpa using ha
          · exact ih (List.mem_cons_self ..) b hb
        · exact ih (List.mem_cons_of_mem _ h)

/-- A text without marks is its only piece. -/
theorem pieces_eq_singleton {isMark : α → Bool} {s : List α} (h : ∀ a ∈ s, isMark a = false) :
    pieces isMark s = [s] := by
  induction s with
  | nil => rfl
  | cons a s ih =>
    simp only [List.mem_cons, forall_eq_or_imp] at h
    rw [pieces_cons, ih h.2]
    simp [h.1, beginWith]

end Text
end ApiContract
