import ApiContract.Client.Endpoint
import ApiContract.Proofs.PushedSegments

/-!
# Paths of operations

**Input:** the URL of a service, the path template of an operation and values by name.

The path of the operation should be that of the service, without an empty segment at its end, and
behind it a segment for each one of the template, which is decoded to the characters of the template
with the values in place of the names, all at once.

**Results:**

* `decoded_endpoint`: exactly when the path of an operation is the one it should be;
* `substitutes_of_plain`: values without braces, dots, tabs and line ends are put as they should be;
* `endpoint_path`: which URL an operation has;
* `endpoint_takes_value_as_name`: a value that looks like a name is replaced as well.
-/

namespace ApiContract
namespace Client

open Url (withoutSkipped IsDots)
open Url.Segments (decoded dropEmptyEnd pushAll rooted)
open Template (substituted filled segments BraceFree)

/-! ## Operations -/

/-- What the path of an operation should stand for: the path of the service without an empty segment
at its end, and behind it the segments of the template with the values in place of the names. -/
def operationPath (u : Url) (template : String) (values : List (String × String)) :
    List (List UInt8) :=
  decoded (dropEmptyEnd u.path) ++
    (segments template).map fun s => Bytes.ofChars (substituted values s)

/-- When the path of an operation stands for what it should. -/
structure Substitutes (u : Url) (template : String) (values : List (String × String)) : Prop where
  /-- With the values one after another the segments are put as those with the values all at
  once. -/
  faithful : Url.Segments.Faithful u.kind (dropEmptyEnd u.path)
    ((segments template).map (filled values)) ((segments template).map (substituted values))
  /-- Behind a path that is only a slash there is a segment. -/
  noRoot : u.path = [[]] → segments template ≠ []
  /-- Behind a path that is two slashes there is none. -/
  noSlashes : dropEmptyEnd u.path = [[]] → segments template = []

section Endpoints

variable {base template : String} {values values' : List (String × String)} {u r : Url}

theorem foldl_push (u : Url) (values : List (String × String)) (ss : List (List Char)) :
    ss.foldl (fun u s => u.push (String.ofList (filled values s))) u =
      { u with path := pushAll u.kind u.path (ss.map (filled values)) } := by
  induction ss generalizing u with
  | nil => rfl
  | cons s ss ih =>
      rw [List.foldl_cons, ih, Url.push, String.toList_ofList]
      rfl

/-- The segments of the template are put behind the path of the service, and nothing else
changes. -/
theorem endpoint_eq (h : Url.ofText? base = some u) :
    endpoint base template values = .ok { u with
      path := pushAll u.kind (Url.Segments.withoutEmptyEnd u.path)
        ((segments template).map (filled values)) } := by
  rw [endpoint, h]
  exact congrArg Except.ok (foldl_push _ _ _)

/-- Texts without braces come from values without braces. -/
theorem filled_of_braceFree (hnames : ∀ e ∈ values, BraceFree e.1.toList) (ss : List (List Char)) :
    List.Forall₂ (fun v w => BraceFree w → v = w) (ss.map (filled values))
      (ss.map (substituted values)) := by
  rw [List.forall₂_map_left_iff, List.forall₂_map_right_iff, List.forall₂_same]
  intro s _ hfree
  exact Template.filled_eq_substituted hnames (Template.tidy_of_braceFree hfree)

/-- The path of an operation stands for what it should if the values are put as they should be, and,
where no name holds a brace, only then. -/
theorem decoded_endpoint (h : Url.ofText? base = some u) :
    (Substitutes u template values →
        decoded (pushAll u.kind (Url.Segments.withoutEmptyEnd u.path)
          ((segments template).map (filled values))) = operationPath u template values) ∧
      ((∀ e ∈ values, BraceFree e.1.toList) →
        decoded (pushAll u.kind (Url.Segments.withoutEmptyEnd u.path)
          ((segments template).map (filled values))) = operationPath u template values →
        Substitutes u template values) := by
  have hsettled := Url.Segments.settled_withoutEmptyEnd (Url.settled_path h)
  have htexts : operationPath u template values = decoded (dropEmptyEnd u.path) ++
      ((segments template).map (substituted values)).map Bytes.ofChars := by
    rw [operationPath, List.map_map]
    rfl
  by_cases hnone : segments template = []
  · by_cases hroot : u.path = [[]]
    · refine ⟨fun hs => absurd hnone (hs.noRoot hroot), fun _ hpath => ?_⟩
      rw [operationPath, hroot, hnone] at hpath
      cases hpath
    · have hsame : Url.Segments.withoutEmptyEnd u.path = dropEmptyEnd u.path := by
        rw [Url.Segments.withoutEmptyEnd_eq, if_neg hroot]
      refine ⟨fun _ => ?_, fun _ _ => ⟨?_, fun he => absurd he hroot, fun _ => hnone⟩⟩
      · rw [operationPath, hsame, hnone]
        exact (List.append_nil _).symm
      · rw [hnone]
        exact ⟨rfl, nofun, nofun, nofun⟩
  have hne : (segments template).map (filled values) ≠ [] := by simpa using hnone
  by_cases hslashes : dropEmptyEnd u.path = [[]]
  · refine ⟨fun hs => absurd (hs.noSlashes hslashes) hnone, fun _ hpath => ?_⟩
    have hroot : u.path ≠ [[]] := by
      intro hroot
      rw [hroot] at hslashes
      cases hslashes
    -- The path loses its empty segment when another is put behind it.
    have hlength := Url.Segments.length_pushAll_le hsettled hne
    rw [Url.Segments.withoutEmptyEnd_eq, if_neg hroot, hslashes] at hlength hpath
    have hcount := congrArg List.length hpath
    simp only [decoded, operationPath, hslashes, List.length_append, List.length_map,
      List.length_singleton] at hcount
    simp only [rooted, if_true, List.length_nil, List.length_map] at hlength
    omega
  have hrooted := Url.Segments.rooted_withoutEmptyEnd hslashes
  rw [htexts, ← hrooted]
  constructor
  · intro hs
    exact Url.Segments.decoded_pushAll hsettled hne (hrooted ▸ hs.faithful)
  · intro hnames hpath
    have hfaithful :=
      Url.Segments.faithful_of_decoded hsettled hne (filled_of_braceFree hnames _) hpath
    exact ⟨hrooted ▸ hfaithful, fun _ => hnone, fun he => absurd he hslashes⟩

/-- An operation has a URL if and only if the service has one with a path; it is that of the service
but for its path.  If no name holds a brace, the path stands for what it should if and only if the
values are put as they should be: filled one after another the segments are what they are filled all
at once, but for characters that are passed over, and no segment is one or two dots, or lost or
changed at the beginning of the path.  Values are filled in one after another as all at once if
neither they, nor their names, nor the template around names hold a brace.  All at once their order
does not matter. -/
theorem endpoint_path (hn : (values.map Prod.fst).Nodup) :
    (endpoint base template values = .error (.invalidBaseUrl base) ↔ Url.ofText? base = none) ∧
      (∀ u, Url.ofText? base = some u →
        ∃ path, endpoint base template values = .ok { u with path } ∧
          (Substitutes u template values → decoded path = operationPath u template values) ∧
          ((∀ e ∈ values, BraceFree e.1.toList) →
            decoded path = operationPath u template values → Substitutes u template values)) ∧
      (∀ s, (∀ e ∈ values, BraceFree e.1.toList ∧ BraceFree e.2.toList) →
        (∀ p ∈ Template.parts s, p.isLoose = false) →
        filled values s = substituted values s) ∧
      ∀ values', values.Perm values' →
        ∀ s, substituted values s = substituted values' s := by
  refine ⟨?_, fun u hu => ⟨_, endpoint_eq hu, decoded_endpoint hu⟩, fun s hfree hloose => ?_,
    fun values' hp s => Template.substituted_perm hn hp s⟩
  · constructor
    · intro h
      by_contra hsome
      obtain ⟨u, hu⟩ := Option.ne_none_iff_exists'.1 hsome
      rw [endpoint_eq hu] at h
      cases h
    · intro h
      rw [endpoint, h]
  · exact Template.filled_eq_substituted (fun e he => (hfree e he).1)
      (Template.tidy_of_values hloose fun e he => (hfree e he).2)

/-- Behind a path with a segment that is not empty, values without braces are put as they should be,
if nothing is passed over and no segment is one or two dots. -/
theorem substitutes_of_plain (hpath : dropEmptyEnd u.path ≠ [] ∧ dropEmptyEnd u.path ≠ [[]])
    (hfree : ∀ e ∈ values, BraceFree e.1.toList ∧ BraceFree e.2.toList)
    (hloose : ∀ s ∈ segments template, ∀ p ∈ Template.parts s, p.isLoose = false)
    (hkept : ∀ s ∈ segments template,
      withoutSkipped (substituted values s) = substituted values s)
    (hdots : ∀ s ∈ segments template, ¬ IsDots (substituted values s)) :
    Substitutes u template values := by
  have hfilled : ∀ s ∈ segments template,
      withoutSkipped (filled values s) = substituted values s := by
    intro s hs
    rw [Template.filled_eq_substituted (fun e he => (hfree e he).1)
      (Template.tidy_of_values (hloose s hs) fun e he => (hfree e he).2)]
    exact hkept s hs
  refine ⟨⟨?_, ?_, fun h => absurd h hpath.1, fun _ h => absurd h hpath.1⟩, fun hroot => ?_,
    fun h => absurd h hpath.2⟩
  · rw [List.map_map]
    exact List.map_congr_left hfilled
  · exact List.forall_mem_map.2 hdots
  · rw [hroot] at hpath
    exact absurd rfl hpath.1

/-- A service behind a path. -/
def apiUrl : Url where
  scheme := "http"
  front := .authority { host := some (.name "localhost"), port := some 8080 }
  path := ["api".toList, []]

theorem endpoint_path_avatar :
    ∃ path, endpoint "http://localhost:8080/api/" "/pets/{petId}/avatar" [("petId", "a/b c")] =
        .ok { apiUrl with path } ∧
      decoded path = ["api", "pets", "a/b c", "avatar"].map fun s => Bytes.ofChars s.toList := by
  have hnames : ([("petId", "a/b c")].map Prod.fst).Nodup := by decide
  have hbase : Url.ofText? "http://localhost:8080/api/" = some apiUrl := rfl
  obtain ⟨path, hendpoint, hpath, -⟩ := (endpoint_path hnames).2.1 apiUrl hbase
  refine ⟨path, hendpoint, hpath (substitutes_of_plain ⟨?_, ?_⟩ ?_ ?_ ?_ ?_)⟩
  all_goals decide

end Endpoints

/-! ## A value that is taken for a name -/

/-- The value of the first name is replaced by that of the second one, unless this comes first. -/
theorem endpoint_takes_value_as_name :
    ∃ u path path', Url.ofText? "http://localhost:8080/api" = some u ∧
      endpoint "http://localhost:8080/api" "/pets/{a}/{b}" [("a", "{b}"), ("b", "1")] =
        .ok { u with path } ∧
      decoded path ≠ operationPath u "/pets/{a}/{b}" [("a", "{b}"), ("b", "1")] ∧
      endpoint "http://localhost:8080/api" "/pets/{a}/{b}" [("b", "1"), ("a", "{b}")] =
        .ok { u with path := path' } ∧
      decoded path' = operationPath u "/pets/{a}/{b}" [("b", "1"), ("a", "{b}")] := by
  refine ⟨_, _, _, rfl, rfl, ?_, rfl, ?_⟩
  · decide
  · decide

end Client
end ApiContract
