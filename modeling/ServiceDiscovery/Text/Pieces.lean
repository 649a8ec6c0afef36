/-!
# Pieces

A text cut at every occurrence of a separator.

Main definitions:

- {lit}`Text.pieces`, {lit}`Text.split`: the pieces of a text.

Main results:

- Theorem {lit}`Text.length_pieces`: there is one piece more than there are separators.
-/

namespace ServiceDiscovery
namespace Text

/-- The pieces of a text between separators, which are empty where two separators meet. -/
def pieces (sep : Char) : List Char → List (List Char)
  | [] => [[]]
  | c :: rest =>
    if c = sep then [] :: pieces sep rest
    else
      match pieces sep rest with
      | [] => [[c]]
      | first :: others => (c :: first) :: others

/-- There is one piece more than there are separators. -/
theorem length_pieces (sep : Char) (cs : List Char) :
    (pieces sep cs).length = cs.count sep + 1 := by
  induction cs with
  | nil => rfl
  | cons c rest ih =>
    by_cases h : c = sep
    · simp [pieces, h, ih]
    · cases hp : pieces sep rest with
      | nil => simp [hp] at ih
      | cons first others =>
        rw [hp] at ih
        simp_all [pieces]

/-- A text cut at every occurrence of a separator. -/
def split (sep : Char) (s : String) : List String :=
  (pieces sep s.toList).map String.ofList

end Text
end ServiceDiscovery
