import ApiContract.PetStore.Server
import ApiContract.Proofs.FilePaths

/-!
# Which requests reach which endpoint

**Input:** the routes of a pet store, and the method and path of a request.

No two of the templates match one path (`Apart`), so that the order in which matches are compared
does not matter, and a request reaches an endpoint exactly if a template with it matches.

**Results:**

* `match?_eq_some_iff`: the match that is found, for routes that are apart;
* `route_endpoints_iff`: the requests that reach an endpoint, one case for each endpoint;
* `pieces_pets_iff`, `pieces_pet_iff`: the paths of all pets and of one pet.
-/

namespace ApiContract

namespace Router

/-! ## Routes that are apart -/

section Apart

variable {α : Type} {r : Router α} {path : List Char} {m : Match α}

/-- No path is matched by two templates. -/
def Apart (r : Router α) : Prop :=
  r.Pairwise fun a b => ∀ pieces, a.1.match? pieces = none ∨ b.1.match? pieces = none

/-- The match of one template, if it matches. -/
def tryMatch (pieces : List (List Char)) (entry : Pattern × Assoc String α) : Option (Match α) :=
  (entry.1.match? pieces).map fun params => { pattern := entry.1, served := entry.2, params }

theorem match?_eq_fold (r : Router α) (path : List Char) :
    r.match? path = match r.filterMap (tryMatch (Text.pieces (· = '/') path)) with
      | [] => none
      | m :: ms => some (ms.foldl Match.first m) :=
  rfl

theorem tryMatch_eq_some_iff {pieces : List (List Char)} {entry : Pattern × Assoc String α} :
    tryMatch pieces entry = some m ↔
      (m.pattern, m.served) = entry ∧ m.pattern.match? pieces = some m.params := by
  obtain ⟨pattern, served⟩ := entry
  constructor
  · intro h
    obtain ⟨params, hparams, rfl⟩ := Option.map_eq_some_iff.1 h
    exact ⟨rfl, hparams⟩
  · rintro ⟨he, hm⟩
    cases he
    simp only [tryMatch, hm, Option.map_some]

/-- Of templates that are apart at most one matches. -/
theorem Apart.length_le (h : r.Apart) (pieces : List (List Char)) :
    (r.filterMap (tryMatch pieces)).length ≤ 1 := by
  induction r with
  | nil => exact Nat.zero_le 1
  | cons entry rest ih =>
      obtain ⟨hfirst, hrest⟩ := List.pairwise_cons.1 h
      rw [List.filterMap_cons]
      cases hm : tryMatch pieces entry with
      | none => exact ih hrest
      | some m =>
          have hmatches : entry.1.match? pieces ≠ none := by
            intro hnone
            rw [tryMatch, hnone] at hm
            cases hm
          have hnil : rest.filterMap (tryMatch pieces) = [] := by
            refine List.filterMap_eq_nil_iff.2 fun other hother => ?_
            rw [tryMatch, (hfirst other hother pieces).resolve_left hmatches]
            rfl
          simp only [hnil, List.length_cons, List.length_nil, Nat.le_refl]

/-- The match that is found is the one of the only template that matches. -/
theorem match?_eq_some_iff (h : r.Apart) : r.match? path = some m ↔
    (m.pattern, m.served) ∈ r ∧
      m.pattern.match? (Text.pieces (· = '/') path) = some m.params := by
  have hmem : m ∈ r.filterMap (tryMatch (Text.pieces (· = '/') path)) ↔
      (m.pattern, m.served) ∈ r ∧
        m.pattern.match? (Text.pieces (· = '/') path) = some m.params := by
    rw [List.mem_filterMap]
    constructor
    · rintro ⟨entry, hentry, hm⟩
      obtain ⟨rfl, hparams⟩ := tryMatch_eq_some_iff.1 hm
      exact ⟨hentry, hparams⟩
    · rintro ⟨hentry, hparams⟩
      exact ⟨_, hentry, tryMatch_eq_some_iff.2 ⟨rfl, hparams⟩⟩
  rw [← hmem, match?_eq_fold]
  have hlength := h.length_le (Text.pieces (· = '/') path)
  rcases hfound : r.filterMap (tryMatch (Text.pieces (· = '/') path)) with _ | ⟨n, _ | ⟨o, ns⟩⟩
  · simp
  · simp [eq_comm]
  · simp [hfound] at hlength

/-- A request reaches what is served under the only template that matches. -/
theorem route_eq_found_iff (h : r.Apart) {method : String} {a : α}
    {params : List (String × List Char)} : r.route method path = .found a params ↔
      ∃ pattern served, (pattern, served) ∈ r ∧ endpoint? served method = some a ∧
        pattern.match? (Text.pieces (· = '/') path) = some params := by
  unfold route
  constructor
  · intro hroute
    cases hm : r.match? path with
    | none =>
        rw [hm] at hroute
        cases hroute
    | some m =>
        obtain ⟨hentry, hparams⟩ := (match?_eq_some_iff h).1 hm
        rw [hm] at hroute
        dsimp only at hroute
        cases he : endpoint? m.served method with
        | none =>
            rw [he] at hroute
            cases hroute
        | some b =>
            rw [he] at hroute
            obtain ⟨rfl, rfl⟩ := Destination.found.inj hroute
            exact ⟨m.pattern, m.served, hentry, he, hparams⟩
  · rintro ⟨pattern, served, hentry, he, hparams⟩
    have hm : r.match? path = some { pattern, served, params } :=
      (match?_eq_some_iff h).2 ⟨hentry, hparams⟩
    rw [hm]
    dsimp only
    rw [he]

end Apart

/-! ## Templates that match -/

section Matching

variable {ps : Pattern} {pieces : List (List Char)} {params : List (String × List Char)}

theorem match?_nil : Pattern.match? [] pieces = some params ↔ pieces = [] ∧ params = [] := by
  cases pieces with
  | nil => simp [Pattern.match?, eq_comm]
  | cons s ss => simp [Pattern.match?]

/-- A word stands for itself. -/
theorem match?_word {w : List Char} : Pattern.match? (.word w :: ps) pieces = some params ↔
    ∃ rest, pieces = w :: rest ∧ ps.match? rest = some params := by
  cases pieces with
  | nil => simp [Pattern.match?]
  | cons s ss =>
      by_cases h : w = s
      · simp [Pattern.match?, h]
      · simp [Pattern.match?, h, eq_comm]

/-- A parameter stands for a piece, which may be empty except at the end. -/
theorem match?_param {name : String} : Pattern.match? (.param name :: ps) pieces = some params ↔
    ∃ s rest others, pieces = s :: rest ∧ ¬ (s = [] ∧ rest = []) ∧
      ps.match? rest = some others ∧ params = (name, s) :: others := by
  cases pieces with
  | nil => simp [Pattern.match?]
  | cons s ss =>
      by_cases h : s = [] ∧ ss = []
      · simp [Pattern.match?, h]
      · have hempty : ¬ (s.isEmpty = true ∧ ss.isEmpty = true) := by simpa using h
        rw [Pattern.match?, if_neg hempty, Option.map_eq_some_iff]
        constructor
        · rintro ⟨others, hothers, rfl⟩
          exact ⟨s, ss, others, rfl, h, hothers, rfl⟩
        · rintro ⟨_, _, others, hcons, _, hothers, rfl⟩
          obtain ⟨rfl, rfl⟩ := List.cons.inj hcons
          exact ⟨others, hothers, rfl⟩

end Matching

section Methods

variable {α : Type} {a b e : α} {method other : String}

theorem get?_entry (served : Assoc String α) :
    Assoc.get? ((other, b) :: served) method = if method = other then some b
      else served.get? method := by
  by_cases h : method = other
  · simp [Assoc.get?, h]
  · have hb : (method == other) = false := by simpa using h
    simp [Assoc.get?, List.lookup_cons, hb, h]

/-- Whoever serves `GET` serves `HEAD` too. -/
theorem endpoint?_get :
    endpoint? [("GET", a)] method = some e ↔ (method = "GET" ∨ method = "HEAD") ∧ a = e := by
  simp only [endpoint?, get?_entry]
  by_cases hget : method = "GET"
  · simp [hget]
  · by_cases hhead : method = "HEAD" <;> simp [hget, hhead, Assoc.get?]

theorem endpoint?_only (hget : other ≠ "GET") :
    endpoint? [(other, b)] method = some e ↔ method = other ∧ b = e := by
  simp only [endpoint?, get?_entry, if_neg hget.symm]
  by_cases h : method = other <;> simp [h, Assoc.get?]

theorem endpoint?_get_or (hget : other ≠ "GET") (hhead : other ≠ "HEAD") :
    endpoint? [("GET", a), (other, b)] method = some e ↔
      (method = "GET" ∨ method = "HEAD") ∧ a = e ∨ method = other ∧ b = e := by
  simp only [endpoint?, get?_entry]
  by_cases h : method = other
  · simp [h, hget, hhead]
  · by_cases hg : method = "GET"
    · simp [hg, hget.symm]
    · by_cases hh : method = "HEAD" <;> simp [h, hg, hh, hhead.symm, Assoc.get?]

end Methods

end Router

namespace PetStore

open Router (Apart Pattern)

/-! ## The routes of a pet store -/

/-- The templates of a pet store, with what is served under each. -/
def routeTable : Router Endpoint :=
  [([.word [], .word "pets".toList], [("GET", .listPets), ("POST", .createPet)]),
    ([.word [], .word "pets".toList, .param "petId"], [("GET", .showPet), ("DELETE", .deletePet)]),
    ([.word [], .word "pets".toList, .param "petId", .word "avatar".toList],
      [("GET", .getAvatar), ("PUT", .putAvatar)]),
    ([.word [], .word "redirect".toList], [("GET", .redirect)]),
    ([.word [], .word "custom-pet".toList], [("POST", .customPet)])]

theorem ofList_endpoints : Router.ofList endpoints = routeTable := by
  decide +kernel

theorem apart_routeTable : routeTable.Apart := by
  have hne : ∀ {ps qs : Pattern}, (∀ pieces params others, ps.match? pieces = some params →
      qs.match? pieces = some others → False) →
      ∀ pieces, ps.match? pieces = none ∨ qs.match? pieces = none := by
    intro ps qs h pieces
    cases hp : ps.match? pieces with
    | none => exact Or.inl rfl
    | some params =>
        cases hq : qs.match? pieces with
        | none => exact Or.inr rfl
        | some others => exact (h pieces params others hp hq).elim
  unfold Router.Apart routeTable
  simp only [List.pairwise_cons, List.mem_cons, List.not_mem_nil, or_false, forall_eq_or_imp,
    forall_eq, false_imp_iff, implies_true, and_true, List.Pairwise.nil]
  refine ⟨⟨?_, ?_, ?_, ?_⟩, ⟨?_, ?_, ?_⟩, ⟨?_, ?_⟩, ?_⟩ <;>
  · refine hne fun pieces params others hp hq => ?_
    simp only [Router.match?_word, Router.match?_param, Router.match?_nil] at hp hq
    grind

/-- Which requests reach an endpoint, by the pieces of their path, and with which parameters. -/
inductive Reaches (method : String) :
    List (List Char) → Endpoint → List (String × List Char) → Prop
  | listPets (h : method = "GET" ∨ method = "HEAD") :
      Reaches method [[], "pets".toList] .listPets []
  | createPet (h : method = "POST") : Reaches method [[], "pets".toList] .createPet []
  | showPet {raw : List Char} (given : raw ≠ []) (h : method = "GET" ∨ method = "HEAD") :
      Reaches method [[], "pets".toList, raw] .showPet [("petId", raw)]
  | deletePet {raw : List Char} (given : raw ≠ []) (h : method = "DELETE") :
      Reaches method [[], "pets".toList, raw] .deletePet [("petId", raw)]
  | getAvatar {raw : List Char} (h : method = "GET" ∨ method = "HEAD") :
      Reaches method [[], "pets".toList, raw, "avatar".toList] .getAvatar [("petId", raw)]
  | putAvatar {raw : List Char} (h : method = "PUT") :
      Reaches method [[], "pets".toList, raw, "avatar".toList] .putAvatar [("petId", raw)]
  | redirect (h : method = "GET" ∨ method = "HEAD") :
      Reaches method [[], "redirect".toList] .redirect []
  | customPet (h : method = "POST") : Reaches method [[], "custom-pet".toList] .customPet []

/-- The requests that reach an endpoint. -/
theorem route_endpoints_iff {method : String} {path : List Char} {e : Endpoint}
    {params : List (String × List Char)} :
    (Router.ofList endpoints).route method path = .found e params ↔
      Reaches method (Text.pieces (· = '/') path) e params := by
  rw [ofList_endpoints, Router.route_eq_found_iff apart_routeTable]
  generalize Text.pieces (· = '/') path = pieces
  constructor
  · rintro ⟨pattern, served, hentry, he, hparams⟩
    simp only [routeTable, List.mem_cons, List.not_mem_nil, or_false, Prod.mk.injEq] at hentry
    rcases hentry with ⟨rfl, rfl⟩ | ⟨rfl, rfl⟩ | ⟨rfl, rfl⟩ | ⟨rfl, rfl⟩ | ⟨rfl, rfl⟩
    · simp only [Router.match?_word, Router.match?_nil] at hparams
      obtain ⟨_, rfl, _, rfl, rfl, rfl⟩ := hparams
      rcases (Router.endpoint?_get_or (by decide) (by decide)).1 he with ⟨hm, rfl⟩ | ⟨hm, rfl⟩
      · exact .listPets hm
      · exact .createPet hm
    · simp only [Router.match?_word, Router.match?_param, Router.match?_nil] at hparams
      obtain ⟨_, rfl, _, rfl, raw, _, _, rfl, hgiven, ⟨rfl, rfl⟩, rfl⟩ := hparams
      have hraw : raw ≠ [] := fun h => hgiven ⟨h, rfl⟩
      rcases (Router.endpoint?_get_or (by decide) (by decide)).1 he with ⟨hm, rfl⟩ | ⟨hm, rfl⟩
      · exact .showPet hraw hm
      · exact .deletePet hraw hm
    · simp only [Router.match?_word, Router.match?_param, Router.match?_nil] at hparams
      obtain ⟨_, rfl, _, rfl, raw, _, _, rfl, -, ⟨_, rfl, rfl, rfl⟩, rfl⟩ := hparams
      rcases (Router.endpoint?_get_or (by decide) (by decide)).1 he with ⟨hm, rfl⟩ | ⟨hm, rfl⟩
      · exact .getAvatar hm
      · exact .putAvatar hm
    · simp only [Router.match?_word, Router.match?_nil] at hparams
      obtain ⟨_, rfl, _, rfl, rfl, rfl⟩ := hparams
      obtain ⟨hm, rfl⟩ := Router.endpoint?_get.1 he
      exact .redirect hm
    · simp only [Router.match?_word, Router.match?_nil] at hparams
      obtain ⟨_, rfl, _, rfl, rfl, rfl⟩ := hparams
      obtain ⟨hm, rfl⟩ := (Router.endpoint?_only (by decide)).1 he
      exact .customPet hm
  · intro h
    cases h with
    | listPets hm =>
        refine ⟨_, _, .head _,
          (Router.endpoint?_get_or (by decide) (by decide)).2 (Or.inl ⟨hm, rfl⟩), ?_⟩
        simp [Router.match?_word, Router.match?_nil]
    | createPet hm =>
        refine ⟨_, _, .head _,
          (Router.endpoint?_get_or (by decide) (by decide)).2 (Or.inr ⟨hm, rfl⟩), ?_⟩
        simp [Router.match?_word, Router.match?_nil]
    | showPet hraw hm =>
        refine ⟨_, _, .tail _ (.head _),
          (Router.endpoint?_get_or (by decide) (by decide)).2 (Or.inl ⟨hm, rfl⟩), ?_⟩
        simp only [Router.match?_word, Router.match?_param, Router.match?_nil]
        exact ⟨_, rfl, _, rfl, _, _, _, rfl, fun h => hraw h.1, ⟨rfl, rfl⟩, rfl⟩
    | deletePet hraw hm =>
        refine ⟨_, _, .tail _ (.head _),
          (Router.endpoint?_get_or (by decide) (by decide)).2 (Or.inr ⟨hm, rfl⟩), ?_⟩
        simp only [Router.match?_word, Router.match?_param, Router.match?_nil]
        exact ⟨_, rfl, _, rfl, _, _, _, rfl, fun h => hraw h.1, ⟨rfl, rfl⟩, rfl⟩
    | getAvatar hm =>
        refine ⟨_, _, .tail _ (.tail _ (.head _)),
          (Router.endpoint?_get_or (by decide) (by decide)).2 (Or.inl ⟨hm, rfl⟩), ?_⟩
        simp only [Router.match?_word, Router.match?_param, Router.match?_nil]
        exact ⟨_, rfl, _, rfl, _, _, _, rfl, by simp, ⟨_, rfl, rfl, rfl⟩, rfl⟩
    | putAvatar hm =>
        refine ⟨_, _, .tail _ (.tail _ (.head _)),
          (Router.endpoint?_get_or (by decide) (by decide)).2 (Or.inr ⟨hm, rfl⟩), ?_⟩
        simp only [Router.match?_word, Router.match?_param, Router.match?_nil]
        exact ⟨_, rfl, _, rfl, _, _, _, rfl, by simp, ⟨_, rfl, rfl, rfl⟩, rfl⟩
    | redirect hm =>
        refine ⟨_, _, .tail _ (.tail _ (.tail _ (.head _))), Router.endpoint?_get.2 ⟨hm, rfl⟩, ?_⟩
        simp [Router.match?_word, Router.match?_nil]
    | customPet hm =>
        refine ⟨_, _, .tail _ (.tail _ (.tail _ (.tail _ (.head _)))),
          (Router.endpoint?_only (by decide)).2 ⟨hm, rfl⟩, ?_⟩
        simp [Router.match?_word, Router.match?_nil]

/-! ## Paths by their pieces -/

/-- The path of all pets. -/
theorem pieces_pets_iff {path : List Char} :
    Text.pieces (· = '/') path = [[], "pets".toList] ↔ path = "/pets".toList := by
  rw [pieces_eq_iff]
  constructor
  · rintro ⟨-, -, rfl⟩
    rfl
  · rintro rfl
    exact ⟨by simp, by simp, rfl⟩

/-- The path of one pet. -/
theorem pieces_pet_iff {path raw : List Char} :
    Text.pieces (· = '/') path = [[], "pets".toList, raw] ↔
      path = "/pets/".toList ++ raw ∧ '/' ∉ raw := by
  rw [pieces_eq_iff]
  have hjoin : ['/'].intercalate [[], "pets".toList, raw] = "/pets/".toList ++ raw := by
    simp [List.intercalate]
  rw [hjoin]
  constructor
  · rintro ⟨-, hfree, rfl⟩
    exact ⟨rfl, hfree raw (by simp)⟩
  · rintro ⟨rfl, hraw⟩
    exact ⟨by simp, by simpa using hraw, rfl⟩

end PetStore
end ApiContract
