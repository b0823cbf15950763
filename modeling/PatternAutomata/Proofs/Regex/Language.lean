import Mathlib.Computability.Language
import PatternAutomata.Regex

/-! The words of a regular expression. -/

set_option autoImplicit false

namespace PatternAutomata.Regex

open scoped Computability

variable {α β : Type}

def language : Regex α → Language α
  | leaf letter => {[letter]}
  | union left right => left.language + right.language
  | concat left right => left.language * right.language
  | star body => body.language∗

def map (f : α → β) : Regex α → Regex β
  | leaf letter => leaf (f letter)
  | union left right => union (left.map f) (right.map f)
  | concat left right => concat (left.map f) (right.map f)
  | star body => star (body.map f)

theorem language_map (f : α → β) (e : Regex α) :
    (e.map f).language = Language.map f e.language := by
  induction e with
  | leaf letter => exact (Set.image_singleton (f := List.map f) (a := [letter])).symm
  | union left right ihl ihr => simp only [map, language, ihl, ihr, map_add]
  | concat left right ihl ihr => simp only [map, language, ihl, ihr, map_mul]
  | star body ih => simp only [map, language, ih, Language.map_kstar]

theorem exists_mem_language (e : Regex α) : ∃ word, word ∈ e.language := by
  induction e with
  | leaf letter => exact ⟨[letter], rfl⟩
  | union left right ihl _ =>
    obtain ⟨word, h⟩ := ihl
    exact ⟨word, .inl h⟩
  | concat left right ihl ihr =>
    obtain ⟨first, hl⟩ := ihl
    obtain ⟨second, hr⟩ := ihr
    exact ⟨first ++ second, Language.append_mem_mul hl hr⟩
  | star body _ => exact ⟨[], Language.nil_mem_kstar _⟩

end PatternAutomata.Regex
