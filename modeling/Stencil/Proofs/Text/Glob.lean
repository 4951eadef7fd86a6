import Mathlib.Data.List.Forall2
import Stencil.Proofs.Filter

/-!
# What a glob pattern matches

A text is compared with a pattern from left to right, and where the comparison gets stuck it goes
back to the last star. This file fixes

* the texts that a pattern matches (`Glob.Matches`), by recursion on the pattern and without any
  search: a star stands for what is in front of some end of the text;
* the comparison as a sequence of passes over a state (`Glob.State.pass`, `Glob.Ends`), and what a
  pass keeps (`Glob.Sound`): behind the last star, the pattern has taken the text character for
  character. So no earlier star could have done better, and none is remembered;
* `Glob.decides_matches`: the comparison comes to an end, and its verdict is `Matches`.
-/

namespace Stencil.Glob

/-! ## 1. The language of a pattern -/

/-- **The texts that a pattern matches.** -/
def Matches : List Char → List Char → Prop
  | [], text => text = []
  | '*' :: p, text => ∃ rest, rest <:+ text ∧ Matches p rest
  | '?' :: p, text => ∃ c rest, text = c :: rest ∧ Matches p rest
  | c :: p, text => ∃ rest, text = c :: rest ∧ Matches p rest

/-- A character of a pattern that is no star takes a character of a text. -/
def Takes (a c : Char) : Prop :=
  a ≠ '*' ∧ (a = '?' ∨ a = c)

variable {pattern behind taken p text left rest seen : List Char} {a c : Char}

theorem matches_nil_iff : Matches [] text ↔ text = [] := by
  rw [Matches]

theorem matches_star_iff : Matches ('*' :: p) text ↔ ∃ rest, rest <:+ text ∧ Matches p rest := by
  rw [Matches]

/-- What is no star takes one character. -/
theorem matches_cons_iff (ha : a ≠ '*') :
    Matches (a :: p) text ↔ ∃ c rest, text = c :: rest ∧ Takes a c ∧ Matches p rest := by
  by_cases hany : a = '?'
  · subst hany
    simp [Matches, Takes]
  · rw [Matches.eq_4 _ _ _ ha hany]
    simp only [Takes, ne_eq, ha, not_false_eq_true, hany, false_or, true_and]
    constructor
    · rintro ⟨rest, rfl, h⟩
      exact ⟨a, rest, rfl, rfl, h⟩
    · rintro ⟨_, rest, rfl, rfl, h⟩
      exact ⟨rest, rfl, h⟩

theorem matches_cons_cons_iff (ha : a ≠ '*') :
    Matches (a :: p) (c :: rest) ↔ Takes a c ∧ Matches p rest := by
  rw [matches_cons_iff ha]
  constructor
  · rintro ⟨_, _, h, htakes, hrest⟩
    obtain ⟨rfl, rfl⟩ := List.cons.inj h
    exact ⟨htakes, hrest⟩
  · exact fun h => ⟨c, rest, rfl, h⟩

/-- A star stands for nothing, or takes one character more. -/
theorem matches_star_cons_iff :
    Matches ('*' :: p) (c :: rest) ↔ Matches p (c :: rest) ∨ Matches ('*' :: p) rest := by
  simp only [matches_star_iff, List.suffix_cons_iff, or_and_right, exists_or, exists_eq_left]

theorem Matches.star_of_suffix (h : Matches ('*' :: p) rest) (hsuffix : rest <:+ text) :
    Matches ('*' :: p) text := by
  obtain ⟨last, hlast, hp⟩ := matches_star_iff.mp h
  exact matches_star_iff.mpr ⟨last, hlast.trans hsuffix, hp⟩

/-- Only stars match the empty text. -/
theorem matches_empty_iff : Matches p [] ↔ p.all (· == '*') = true := by
  induction p with
  | nil => simp [matches_nil_iff]
  | cons a p ih =>
    by_cases ha : a = '*'
    · subst ha
      simp [matches_star_iff, ih]
    · simp [matches_cons_iff ha, ha]

/-- **A pattern without stars takes a run of its own length.** -/
theorem matches_append_iff (h : ∀ a ∈ taken, a ≠ '*') :
    Matches (taken ++ p) text ↔
      ∃ seen rest, text = seen ++ rest ∧ List.Forall₂ Takes taken seen ∧ Matches p rest := by
  induction taken generalizing text with
  | nil => simp
  | cons a taken ih =>
    obtain ⟨ha, htaken⟩ := List.forall_mem_cons.mp h
    rw [List.cons_append, matches_cons_iff ha]
    constructor
    · rintro ⟨c, rest, rfl, htakes, hrest⟩
      obtain ⟨seen, last, rfl, hseen, hlast⟩ := (ih htaken).mp hrest
      exact ⟨c :: seen, last, rfl, .cons htakes hseen, hlast⟩
    · rintro ⟨_, last, rfl, hseen, hlast⟩
      obtain ⟨c, seen, htakes, hrest, rfl⟩ := List.forall₂_cons_left_iff.mp hseen
      exact ⟨c, seen ++ last, rfl, htakes, (ih htaken).mpr ⟨seen, last, rfl, hrest, hlast⟩⟩

/-- What takes characters is no star. -/
theorem ne_star_of_takes (h : List.Forall₂ Takes taken seen) : ∀ a ∈ taken, a ≠ '*' := by
  induction h with
  | nil => simp
  | cons htakes _ ih => exact List.forall_mem_cons.mpr ⟨htakes.1, ih⟩

/-- What stands behind a star may begin with a run that is taken character for character. -/
theorem Matches.star_append (h : Matches p text) (htaken : List.Forall₂ Takes taken seen) :
    Matches ('*' :: (taken ++ p)) (seen ++ text) := by
  refine matches_star_iff.mpr ⟨seen ++ text, List.suffix_refl _, ?_⟩
  exact (matches_append_iff (ne_star_of_takes htaken)).mpr ⟨seen, text, rfl, htaken, h⟩

/-- **Nothing is lost by taking the first run that fits**: wherever else the star ends, what is
    left then is an end of what is left behind that run. -/
theorem exists_suffix_of_matches (htaken : List.Forall₂ Takes taken seen)
    (h : Matches ('*' :: (taken ++ p)) (seen ++ text)) :
    ∃ rest, rest <:+ text ∧ Matches p rest := by
  obtain ⟨left, hleft, hmatches⟩ := matches_star_iff.mp h
  obtain ⟨other, rest, rfl, hother, hrest⟩ :=
    (matches_append_iff (ne_star_of_takes htaken)).mp hmatches
  refine ⟨rest, List.suffix_of_suffix_length_le ((List.suffix_append other rest).trans hleft)
    (List.suffix_append seen text) ?_, hrest⟩
  have hlength := hleft.length_le
  simp only [List.length_append, ← htaken.length_eq, ← hother.length_eq] at hlength
  omega

/-! ## 2. Passes -/

/-- What a pattern can make of the next character. -/
inductive Advances (c : Char) : List Char → Advance → Prop where
  | star (behind : List Char) : Advances c ('*' :: behind) (.star behind)
  | one {a : Char} (htakes : Takes a c) (behind : List Char) :
      Advances c (a :: behind) (.one behind)
  | stuck {pattern : List Char} (h : ∀ rest, ¬Matches pattern (c :: rest)) :
      Advances c pattern .stuck

theorem advances_advance (c : Char) (pattern : List Char) :
    Advances c pattern (advance c pattern) := by
  cases pattern with
  | nil => exact .stuck fun rest => by simp [matches_nil_iff]
  | cons a behind =>
    simp only [advance]
    split_ifs with hstar hone
    · exact hstar ▸ .star behind
    · exact .one ⟨hstar, hone⟩ behind
    · refine .stuck fun rest hmatches => ?_
      exact hone ((matches_cons_cons_iff hstar).mp hmatches).1.2

/-- Where a comparison stands: what is left of the pattern and of the text, and the last star. -/
structure State where
  pattern : List Char
  text : List Char
  star : Option Star

namespace State

/-- The beginning of a comparison. -/
def start (pattern text : List Char) : State :=
  ⟨pattern, text, none⟩

/-- One pass of a comparison: the state after it, or the verdict. -/
def pass (s : State) : State ⊕ Bool :=
  match s.text with
  | [] => .inr (s.pattern.all (· == '*'))
  | c :: rest =>
    match advance c s.pattern with
    | .star behind => .inl ⟨behind, c :: rest, some (behind, c :: rest)⟩
    | .one behind => .inl ⟨behind, rest, s.star⟩
    | .stuck =>
      match s.star with
      | some (behind, _ :: left) => .inl ⟨behind, left, some (behind, left)⟩
      | _ => .inr false

/-- What is still to be decided: whether the pattern matches the text, or what is behind the last
    star some end of what the star has not taken. -/
def Asks (s : State) : Prop :=
  match s.star with
  | none => Matches s.pattern s.text
  | some (behind, left) => Matches ('*' :: behind) left

/-- How many passes are left at most, in a comparison of a pattern and a text of `width - 1`
    characters together. -/
def cost (width : Nat) (s : State) : Nat :=
  room s.star s.text * width + (s.pattern.length + s.text.length)

end State

/-- From a state on, a comparison comes to a verdict in so many passes. -/
inductive Ends : State → Nat → Bool → Prop where
  | verdict {s : State} {b : Bool} (h : s.pass = .inr b) : Ends s 0 b
  | pass {s next : State} {k : Nat} {b : Bool} (h : s.pass = .inl next) (hnext : Ends next k b) :
      Ends s (k + 1) b

/-- **The states of a comparison** of a pattern of at most `m` and a text of at most `n`
    characters. Once there is a star, what stands behind it in the pattern has taken the text
    character for character. -/
inductive Sound (m n : Nat) : State → Prop where
  | fresh {pattern text : List Char} (hpattern : pattern.length ≤ m) (htext : text.length ≤ n) :
      Sound m n ⟨pattern, text, none⟩
  | behind {pattern text behind left taken seen : List Char}
      (htaken : List.Forall₂ Takes taken seen)
      (hbehind : behind = taken ++ pattern) (hleft : left = seen ++ text)
      (hpattern : behind.length ≤ m) (htext : left.length ≤ n) :
      Sound m n ⟨pattern, text, some (behind, left)⟩

variable {m n k : Nat} {s next : State} {b : Bool}

namespace State

variable {width : Nat}

theorem cost_lt_of_shorter (hroom : room next.star next.text ≤ room s.star s.text)
    (h : next.pattern.length + next.text.length < s.pattern.length + s.text.length) :
    next.cost width < s.cost width :=
  Nat.add_lt_add_of_le_of_lt (Nat.mul_le_mul_right width hroom) h

theorem cost_lt_of_room_lt (hroom : room next.star next.text < room s.star s.text)
    (h : next.pattern.length + next.text.length < width) : next.cost width < s.cost width := by
  have hmul : (room next.star next.text + 1) * width ≤ room s.star s.text * width :=
    Nat.mul_le_mul_right width hroom
  rw [Nat.succ_mul] at hmul
  unfold cost
  omega

end State

/-- What a pass keeps, and that it comes nearer to the end. -/
structure Keeps (m n : Nat) (s next : State) : Prop where
  sound : Sound m n next
  asks_iff : next.Asks ↔ s.Asks
  cost_lt : next.cost (m + n + 1) < s.cost (m + n + 1)

section Passes

variable {star : Option Star}

/-- A star takes the place of the last one. -/
theorem keeps_star (hs : Sound m n ⟨'*' :: behind, text, star⟩) :
    Keeps m n ⟨'*' :: behind, text, star⟩ ⟨behind, text, some (behind, text)⟩ := by
  cases hs with
  | fresh hpattern htext =>
    refine ⟨.behind .nil rfl rfl (Nat.le_of_succ_le hpattern) htext, Iff.rfl, ?_⟩
    exact State.cost_lt_of_shorter (Nat.le_succ _) (by simp)
  | @behind _ _ before left taken seen htaken hbehind hleft hpattern htext =>
    subst hbehind hleft
    simp only [List.length_append, List.length_cons] at hpattern htext
    refine ⟨.behind .nil rfl rfl (by omega) (by omega), ⟨fun h => ?_, fun h => ?_⟩, ?_⟩
    · exact h.star_append htaken
    · obtain ⟨rest, hsuffix, hrest⟩ := exists_suffix_of_matches htaken h
      exact hrest.star_of_suffix hsuffix
    · exact State.cost_lt_of_shorter (by simp [room]) (by simp)

/-- A character is taken. -/
theorem keeps_one (htakes : Takes a c) (hs : Sound m n ⟨a :: behind, c :: rest, star⟩) :
    Keeps m n ⟨a :: behind, c :: rest, star⟩ ⟨behind, rest, star⟩ := by
  cases hs with
  | fresh hpattern htext =>
    refine ⟨.fresh (Nat.le_of_succ_le hpattern) (Nat.le_of_succ_le htext), ?_, ?_⟩
    · exact (and_iff_right htakes).symm.trans (matches_cons_cons_iff htakes.1).symm
    · exact State.cost_lt_of_shorter (Nat.le_succ _) (by simp; omega)
  | @behind _ _ before left taken seen htaken hbehind hleft hpattern htext =>
    refine ⟨.behind (List.rel_append htaken (.cons htakes .nil)) ?_ ?_ hpattern htext, Iff.rfl, ?_⟩
    · rw [hbehind, List.append_assoc, List.singleton_append]
    · rw [hleft, List.append_assoc, List.singleton_append]
    · exact State.cost_lt_of_shorter (Nat.le_refl _) (by simp; omega)

/-- The last star takes one character more. -/
theorem keeps_back {d : Char} (h : ¬Matches pattern (c :: rest))
    (hs : Sound m n ⟨pattern, c :: rest, some (behind, d :: left)⟩) :
    Keeps m n ⟨pattern, c :: rest, some (behind, d :: left)⟩
      ⟨behind, left, some (behind, left)⟩ := by
  cases hs with
  | @behind _ _ _ _ taken seen htaken hbehind hleft hpattern htext =>
    have hnot : ¬Matches behind (d :: left) := by
      rw [hbehind, hleft, matches_append_iff (ne_star_of_takes htaken)]
      rintro ⟨other, last, hsplit, hother, hlast⟩
      obtain ⟨-, rfl⟩ := List.append_inj hsplit (htaken.length_eq.symm.trans hother.length_eq)
      exact h hlast
    refine ⟨.behind .nil rfl rfl hpattern (Nat.le_of_succ_le htext), ?_, ?_⟩
    · exact (or_iff_right hnot).symm.trans matches_star_cons_iff.symm
    · refine State.cost_lt_of_room_lt (Nat.lt_succ_self _) ?_
      simp only [List.length_cons] at htext ⊢
      omega

end Passes

/-- **One pass** leads from a state of a comparison to another one that asks the same. -/
theorem Sound.keeps (hs : Sound m n s) (h : s.pass = .inl next) : Keeps m n s next := by
  obtain ⟨pattern, text, star⟩ := s
  cases text with
  | nil => cases h
  | cons c rest =>
    have hadvance := advances_advance c pattern
    simp only [State.pass] at h
    generalize advance c pattern = advance at h hadvance
    cases hadvance with
    | star behind =>
      obtain rfl := Sum.inl.inj h
      exact keeps_star hs
    | one htakes behind =>
      obtain rfl := Sum.inl.inj h
      exact keeps_one htakes hs
    | stuck hstuck =>
      rcases star with _ | ⟨behind, _ | ⟨d, left⟩⟩
      · cases h
      · cases h
      · obtain rfl := Sum.inl.inj h
        exact keeps_back (hstuck rest) hs

/-- **The verdict** is the answer to what the last state asks. -/
theorem Sound.verdict_iff (hs : Sound m n s) (h : s.pass = .inr b) : b = true ↔ s.Asks := by
  obtain ⟨pattern, text, star⟩ := s
  cases text with
  | nil =>
    obtain rfl := Sum.inr.inj h
    rw [← matches_empty_iff]
    cases hs with
    | fresh => exact Iff.rfl
    | @behind _ _ _ _ taken seen htaken hbehind hleft hpattern htext =>
      subst hbehind hleft
      refine ⟨fun hmatches => hmatches.star_append htaken, fun hmatches => ?_⟩
      · obtain ⟨rest, hsuffix, hrest⟩ := exists_suffix_of_matches htaken hmatches
        rwa [List.suffix_nil.mp hsuffix] at hrest
  | cons c rest =>
    have hadvance := advances_advance c pattern
    simp only [State.pass] at h
    generalize advance c pattern = advance at h hadvance
    cases hadvance with
    | star behind => cases h
    | one htakes behind => cases h
    | stuck hstuck =>
      cases hs with
      | fresh =>
        obtain rfl := Sum.inr.inj h
        exact iff_of_false Bool.false_ne_true (hstuck rest)
      | @behind _ _ _ left taken seen htaken hbehind hleft =>
        -- the star has not yet taken the text that is left, so it could go on
        cases left with
        | nil => simp at hleft
        | cons d left => cases h

/-! ## 3. Whole comparisons -/

/-- Every comparison comes to an end with the verdict of `run`. -/
theorem exists_ends_run (pattern text : List Char) (star : Option Star)
    (h : ∀ s, star = some s → text.length ≤ s.2.length) :
    ∃ k, Ends ⟨pattern, text, star⟩ k (Glob.run pattern text star h) := by
  fun_induction Glob.run pattern text star h with
  | case1 pattern star => exact ⟨0, .verdict rfl⟩
  | case2 pattern star c rest _ behind hadvance _ ih =>
    obtain ⟨k, hk⟩ := ih
    exact ⟨k + 1, .pass (by simp only [State.pass, hadvance]) hk⟩
  | case3 pattern star c rest _ behind hadvance _ ih =>
    obtain ⟨k, hk⟩ := ih
    exact ⟨k + 1, .pass (by simp only [State.pass, hadvance]) hk⟩
  | case4 pattern c rest hadvance behind d left _ _ ih =>
    obtain ⟨k, hk⟩ := ih
    exact ⟨k + 1, .pass (by simp only [State.pass, hadvance]) hk⟩
  | case5 pattern star c rest hadvance h hstar _ =>
    refine ⟨0, .verdict ?_⟩
    rcases star with _ | ⟨behind, _ | ⟨d, left⟩⟩
    · simp only [State.pass, hadvance]
    · simp only [State.pass, hadvance]
    · exact absurd HEq.rfl (hstar behind d left h rfl)

/-- **From the first pass to the last**: the verdict is the answer to what was asked, and the passes
    are counted by the cost. -/
theorem Ends.answers (h : Ends s k b) (hs : Sound m n s) :
    (b = true ↔ s.Asks) ∧ k ≤ s.cost (m + n + 1) := by
  induction h with
  | verdict h => exact ⟨hs.verdict_iff h, Nat.zero_le _⟩
  | pass h hnext ih =>
    obtain ⟨hsound, hasks, hcost⟩ := hs.keeps h
    obtain ⟨hanswer, hcount⟩ := ih hsound
    exact ⟨hanswer.trans hasks, Nat.le_trans (Nat.succ_le_succ hcount) hcost⟩

theorem exists_ends_fits (pattern text : List Char) :
    ∃ k ≤ (text.length + 1) * (pattern.length + text.length + 1) +
        (pattern.length + text.length),
      Ends (.start pattern text) k (fits pattern text) := by
  obtain ⟨k, hk⟩ := exists_ends_run pattern text none nofun
  exact ⟨k, (hk.answers (.fresh (Nat.le_refl _) (Nat.le_refl _))).2, hk⟩

theorem fits_iff (pattern text : List Char) : fits pattern text = true ↔ Matches pattern text := by
  obtain ⟨k, -, hk⟩ := exists_ends_fits pattern text
  exact (hk.answers (.fresh (Nat.le_refl _) (Nat.le_refl _))).1

/-- **The comparison decides what a pattern matches.** From every pattern and text it comes to a
    verdict, after a number of passes that grows with the square of their lengths, and the verdict
    is whether the pattern matches the text. So the operator `StringLike` gives a verdict on two
    values exactly if both are scalars, and it holds if the text of the right one, as a pattern,
    matches the text of the left one. -/
theorem decides_matches :
    (∀ pattern text : List Char,
      (∃ k ≤ (text.length + 1) * (pattern.length + text.length + 1) +
          (pattern.length + text.length),
        Ends (.start pattern text) k (fits pattern text)) ∧
      (fits pattern text = true ↔ Matches pattern text)) ∧
    ∀ (left right : Value) (b : Bool), Operator.stringLike.test left right = .ok b ↔
      left.IsScalar ∧ right.IsScalar ∧
        (b = true ↔ Matches right.display.toList left.display.toList) := by
  refine ⟨fun pattern text => ⟨exists_ends_fits pattern text, fits_iff pattern text⟩, ?_⟩
  intro left right b
  rw [Operator.test, Operator.testTexts_eq_ok_iff, ← fits_iff, ← Bool.eq_iff_iff, eq_comm (a := b)]

end Stencil.Glob
