/-!
# Glob patterns

In a pattern a star stands for any run of characters and a question mark for any one character.
This file fixes the comparison of a pattern with a text (`Glob.fits`). It reads both from left to
right and remembers the last star: when the characters behind that star do not fit, the star takes
one character more and the comparison starts again behind it.
-/

namespace Stencil.Glob

/-- What a pattern makes of the next character of a text. -/
inductive Advance where
  /-- The pattern starts with a star. -/
  | star (behind : List Char)
  /-- The pattern takes the character. -/
  | one (behind : List Char)
  /-- The pattern does not fit. -/
  | stuck

/-- How a pattern goes on when the text goes on with a character. -/
def advance (c : Char) : List Char → Advance
  | [] => .stuck
  | p :: behind =>
    if p = '*' then .star behind else if p = '?' ∨ p = c then .one behind else .stuck

theorem length_lt_of_advance_star {c : Char} {pattern behind : List Char}
    (h : advance c pattern = .star behind) : behind.length < pattern.length := by
  cases pattern with
  | nil => simp [advance] at h
  | cons p rest =>
    simp only [advance] at h
    split at h
    · simp only [Advance.star.injEq] at h
      simp [h]
    · split at h <;> simp at h

/-- The pattern behind the last star, and the text that the star has not yet taken. -/
abbrev Star := List Char × List Char

/-- How often a star can still take one character more: the last one, or one to come. -/
def room (star : Option Star) (text : List Char) : Nat :=
  match star with
  | none => text.length + 1
  | some s => s.2.length

/-- Compares a pattern with a text, after a last star. `h` says that the text is an end of what the
    star has not taken. -/
def run (pattern text : List Char) (star : Option Star)
    (h : ∀ s, star = some s → text.length ≤ s.2.length) : Bool :=
  match text with
  | [] => pattern.all (· == '*')
  | c :: rest =>
    match ha : advance c pattern with
    | .star behind =>
      run behind (c :: rest) (some (behind, c :: rest)) (by rintro s ⟨⟩; exact Nat.le_refl _)
    | .one behind => run behind rest star (fun s hs => Nat.le_of_succ_le (h s hs))
    | .stuck =>
      match star with
      | some (behind, _ :: left) =>
        run behind left (some (behind, left)) (by rintro s ⟨⟩; exact Nat.le_refl _)
      | _ => false
termination_by (room star text, text.length, pattern.length)
decreasing_by
  · have hb := length_lt_of_advance_star ha
    cases star with
    | none => exact Prod.Lex.left _ _ (by simp [room])
    | some s =>
      have hs : (c :: rest).length ≤ s.2.length := h s rfl
      rcases Nat.lt_or_eq_of_le hs with hlt | heq
      · exact Prod.Lex.left _ _ hlt
      · simp only [room]
        rw [heq]
        exact Prod.Lex.right _ (Prod.Lex.right _ hb)
  · cases star with
    | none => exact Prod.Lex.left _ _ (by simp [room])
    | some s => exact Prod.Lex.right _ (Prod.Lex.left _ _ (by simp))
  · exact Prod.Lex.left _ _ (by simp [room])

/-- Does a text fit a pattern? -/
def fits (pattern text : List Char) : Bool :=
  run pattern text none (by intro s hs; simp at hs)

end Stencil.Glob
