import MeshcoreRepeater.Lib.Run
import Mathlib.Data.List.FinRange
import Mathlib.Data.List.Pairwise

/-! # A limiter with one gate for each key

A caller is answered, then refused until its cooldown is over. The gates stand in a table
of `n` rows; a caller without one takes the row that `victim` names. As long as that row is
free or its cooldown is over, answers to one key are a cooldown apart, however many keys there
are; when it is not, the next call of its old key breaks that (`spaced_iff`).
-/

namespace KeyedGate

variable {κ : Type} [DecidableEq κ] {n : Nat}

/-- The key of a row and the time its gate opens. -/
abbrev Table (κ : Type) (n : Nat) := Fin n → Option (κ × Nat)

/-- A call: its key, if it has one, and the time. -/
abbrev Call (κ : Type) := Option κ × Nat

/-- The row of a key. -/
def find (T : Table κ n) (key : κ) : Option (Fin n) :=
  (List.finRange n).find? fun i => (T i).any fun g => g.1 == key

/-- The table, and the calls that were answered. -/
structure State (κ : Type) (n : Nat) where
  table : Table κ n
  answers : List (κ × Nat)

/-- No gate, no answer. -/
def State.init : State κ n := ⟨fun _ => none, []⟩

section
variable (cooldown : Nat) (victim : Table κ n → Fin n)

/-- One call: the table after it, and whether it was answered. A call without a key never is. -/
def ask (T : Table κ n) (c : Call κ) : Table κ n × Bool :=
  match c.1 with
  | none => (T, false)
  | some key =>
    match find T key with
    | some i =>
      if (T i).any fun g => decide (c.2 < g.2) then (T, false)
      else (Function.update T i (some (key, c.2 + cooldown)), true)
    | none => (Function.update T (victim T) (some (key, c.2 + cooldown)), true)

def step (s : State κ n) (c : Call κ) : State κ n where
  table := (ask cooldown victim s.table c).1
  answers := if (ask cooldown victim s.table c).2 then s.answers ++ (c.1.map fun key => (key, c.2)).toList
    else s.answers

/-- After some calls. -/
def after (calls : List (Call κ)) : State κ n := Runs.run (step cooldown victim) .init calls

/-- Answers to one key are a cooldown apart. -/
def Spaced (answers : List (κ × Nat)) : Prop := answers.Pairwise fun c d => c.1 = d.1 → c.2 + cooldown ≤ d.2

/-- The call takes no row whose cooldown is not over. -/
def Spares (s : State κ n) (c : Call κ) : Prop :=
  ∀ key, c.1 = some key → find s.table key = none → ∀ g, s.table (victim s.table) = some g → g.2 ≤ c.2

end

/-- The times do not go back. -/
def Ordered (calls : List (Call κ)) : Prop := calls.Pairwise fun c d => c.2 ≤ d.2

/-! ## One call -/

theorem find_eq_none {T : Table κ n} {key : κ} : find T key = none ↔ ∀ i t, T i ≠ some (key, t) := by
  rw [find, List.find?_eq_none]
  constructor
  · intro h i t hg
    apply h i (List.mem_finRange i)
    simp [hg]
  · intro h i _ hany
    rcases (Option.any_eq_true _ _).mp hany with ⟨⟨k, t⟩, hg, hkey⟩
    have hk : k = key := by simpa using hkey
    exact h i t (hk ▸ hg)

theorem find_eq_some {T : Table κ n} {key : κ} {i : Fin n} (h : find T key = some i) :
    ∃ t, T i = some (key, t) := by
  have hany := List.find?_some h
  rcases (Option.any_eq_true _ _).mp hany with ⟨⟨k, t⟩, hg, hkey⟩
  have hk : k = key := by simpa using hkey
  exact ⟨t, by rw [hg, hk]⟩

omit [DecidableEq κ] in
theorem update_eq_some {T : Table κ n} {i j : Fin n} {g g' : κ × Nat} :
    Function.update T i (some g) j = some g' ↔ (j = i ∧ g = g') ∨ (j ≠ i ∧ T j = some g') := by
  by_cases hj : j = i
  · subst hj
    simp
  · simp [hj]

variable {cooldown : Nat} {victim : Table κ n → Fin n} {s : State κ n} {calls : List (Call κ)}

/-- The key has no row yet, or the one it had is open again. -/
def Open (victim : Table κ n → Fin n) (T : Table κ n) (key : κ) (now : Nat) (i : Fin n) : Prop :=
  (∃ t, T i = some (key, t) ∧ t ≤ now) ∨ (find T key = none ∧ i = victim T)

/-- A call is refused and changes nothing, or it is answered and its row is written. -/
theorem step_cases (cooldown : Nat) (victim : Table κ n → Fin n) (s : State κ n) (c : Call κ) :
    (step cooldown victim s c = s ∧ ∀ key, c.1 = some key → ∃ i t, s.table i = some (key, t) ∧ c.2 < t) ∨
      ∃ key i, c.1 = some key ∧ Open victim s.table key c.2 i ∧
        step cooldown victim s c =
          ⟨Function.update s.table i (some (key, c.2 + cooldown)), s.answers ++ [(key, c.2)]⟩ := by
  rcases c with ⟨key, now⟩
  cases key with
  | none => exact .inl ⟨rfl, by nofun⟩
  | some key =>
    cases hfind : find s.table key with
    | none =>
      right
      refine ⟨key, victim s.table, rfl, .inr ⟨hfind, rfl⟩, ?_⟩
      simp [step, ask, hfind]
    | some i =>
      rcases find_eq_some hfind with ⟨t, ht⟩
      by_cases hnow : now < t
      · left
        refine ⟨by simp [step, ask, hfind, ht, hnow], ?_⟩
        rintro _ ⟨⟩
        exact ⟨i, t, ht, hnow⟩
      · right
        refine ⟨key, i, rfl, .inl ⟨t, ht, by omega⟩, ?_⟩
        simp [step, ask, hfind, ht, hnow]

/-! ## Runs -/

/-- No key has two rows, and every row was written by an answer. -/
structure Written (cooldown : Nat) (s : State κ n) : Prop where
  apart : ∀ i j key t u, s.table i = some (key, t) → s.table j = some (key, u) → i = j
  source : ∀ i key t, s.table i = some (key, t) → ∃ u, (key, u) ∈ s.answers ∧ t = u + cooldown

theorem Written.step (h : Written cooldown s) (c : Call κ) : Written cooldown (step cooldown victim s c) := by
  rcases step_cases cooldown victim s c with ⟨heq, -⟩ | ⟨key, i, -, hopen, heq⟩
  · rw [heq]
    exact h
  rw [heq]
  -- the row that is written is the only one of its key
  have honly : ∀ j t, s.table j = some (key, t) → j = i := by
    intro j t hj
    rcases hopen with ⟨u, hi, -⟩ | ⟨hfind, -⟩
    · exact h.apart j i key t u hj hi
    · exact absurd hj (find_eq_none.mp hfind j t)
  constructor
  · intro j l k t u hj hl
    rcases update_eq_some.mp hj with ⟨hji, hkj⟩ | ⟨hji, hoj⟩
    · rcases update_eq_some.mp hl with ⟨hli, -⟩ | ⟨hli, hol⟩
      · rw [hji, hli]
      · cases hkj
        exact absurd (honly l u hol) hli
    · rcases update_eq_some.mp hl with ⟨-, hkl⟩ | ⟨-, hol⟩
      · cases hkl
        exact absurd (honly j t hoj) hji
      · exact h.apart j l k t u hoj hol
  · intro j k t hj
    rcases update_eq_some.mp hj with ⟨-, hk⟩ | ⟨-, hj⟩
    · cases hk
      exact ⟨c.2, by simp, rfl⟩
    · rcases h.source j k t hj with ⟨u, hu, ht⟩
      exact ⟨u, List.mem_append_left _ hu, ht⟩

theorem written_after (calls : List (Call κ)) : Written cooldown (after cooldown victim calls : State κ n) :=
  Runs.run_invariant (Written cooldown) (fun _ c h => h.step c) ⟨by nofun, by nofun⟩ calls

/-- Every answer whose cooldown is not over at `now` still has its gate. -/
def Held (cooldown : Nat) (s : State κ n) (now : Nat) : Prop :=
  ∀ key u, (key, u) ∈ s.answers → now < u + cooldown → ∃ i t, s.table i = some (key, t) ∧ now < t

theorem Held.step (h : ∀ now, c.2 ≤ now → Held cooldown s now) (hspares : Spares victim s c) {now : Nat}
    (hnow : c.2 ≤ now) : Held cooldown (step cooldown victim s c) now := by
  rcases step_cases cooldown victim s c with ⟨heq, -⟩ | ⟨key, i, hkey, hopen, heq⟩
  · rw [heq]
    exact h now hnow
  rw [heq]
  intro k u hu hcool
  rcases List.mem_append.mp hu with hold | hnew
  · rcases h now hnow k u hold hcool with ⟨j, t, hj, ht⟩
    -- that gate is shut, the row that is written was open or is spared
    have hne : j ≠ i := by
      rintro rfl
      rcases hopen with ⟨v, hv, hle⟩ | ⟨hfind, rfl⟩
      · rw [hj] at hv
        cases hv
        omega
      · have hle := hspares key hkey hfind _ hj
        simp only at hle
        omega
    exact ⟨j, t, update_eq_some.mpr (.inr ⟨hne, hj⟩), ht⟩
  · cases List.mem_singleton.mp hnew
    exact ⟨i, c.2 + cooldown, Function.update_self .., hcool⟩

omit [DecidableEq κ] in
/-- The calls in front of another one are not later. -/
theorem le_of_ordered {c : Call κ} (h : Ordered (calls ++ [c])) : ∀ d ∈ calls, d.2 ≤ c.2 := by
  intro d hd
  exact (List.pairwise_append.mp h).2.2 d hd c List.mem_cons_self

theorem after_concat (calls : List (Call κ)) (c : Call κ) :
    (after cooldown victim (calls ++ [c]) : State κ n) = step cooldown victim (after cooldown victim calls) c :=
  Runs.run_concat _ _ _ _

theorem every_concat {ok : State κ n → Call κ → Prop} {c : Call κ} :
    Runs.Every (step cooldown victim) ok .init (calls ++ [c]) ↔
      Runs.Every (step cooldown victim) ok .init calls ∧ ok (after cooldown victim calls) c := by
  rw [Runs.every_append]
  simp [after]

theorem held_after (hord : Ordered calls) (hspares : Runs.Every (step cooldown victim) (Spares victim) .init calls) :
    ∀ now, (∀ d ∈ calls, d.2 ≤ now) → Held cooldown (after cooldown victim calls : State κ n) now := by
  induction calls using List.reverseRecOn with
  | nil =>
    intro now _ key u hu
    cases hu
  | append_singleton calls c ih =>
    intro now hnow
    rw [every_concat] at hspares
    rw [after_concat]
    refine Held.step ?_ hspares.2 (hnow c (by simp))
    intro now hc
    apply ih (List.pairwise_append.mp hord).1 hspares.1
    intro d hd
    exact (le_of_ordered hord d hd).trans hc

/-- An answer is a cooldown behind the answers to its key whose gates are held. -/
theorem Spaced.step {c : Call κ} (h : Spaced cooldown s.answers) (hwritten : Written cooldown s)
    (hheld : Held cooldown s c.2) : Spaced cooldown (step cooldown victim s c).answers := by
  rcases step_cases cooldown victim s c with ⟨heq, -⟩ | ⟨key, i, -, hopen, heq⟩
  · rw [heq]
    exact h
  rw [heq, Spaced, List.pairwise_append]
  refine ⟨h, List.pairwise_singleton _ _, ?_⟩
  rintro ⟨k, u⟩ hu d hd hk
  rw [List.mem_singleton.mp hd] at hk ⊢
  change k = key at hk
  subst hk
  by_contra hlt
  rcases hheld k u hu (by omega) with ⟨j, t, hj, ht⟩
  -- the gate that is held is the one that was found open
  rcases hopen with ⟨v, hv, hle⟩ | ⟨hfind, -⟩
  · rw [hwritten.apart j i k t v hj hv, hv] at hj
    cases hj
    omega
  · exact find_eq_none.mp hfind j t hj

theorem spaced_after (hord : Ordered calls) (hspares : Runs.Every (step cooldown victim) (Spares victim) .init calls) :
    Spaced cooldown (after cooldown victim calls : State κ n).answers := by
  induction calls using List.reverseRecOn with
  | nil => exact List.Pairwise.nil
  | append_singleton calls c ih =>
    rw [every_concat] at hspares
    have hbefore := (List.pairwise_append.mp hord).1
    rw [after_concat]
    exact (ih hbefore hspares.1).step (written_after calls)
      (held_after hbefore hspares.1 c.2 (le_of_ordered hord))

/-- The same for whatever call comes next. -/
theorem spaced_concat {c : Call κ} (hord : Ordered (calls ++ [c]))
    (hspares : Runs.Every (step cooldown victim) (Spares victim) .init calls) :
    Spaced cooldown (after cooldown victim (calls ++ [c]) : State κ n).answers := by
  have hbefore := (List.pairwise_append.mp hord).1
  rw [after_concat]
  exact (spaced_after hbefore hspares).step (written_after calls)
    (held_after hbefore hspares c.2 (le_of_ordered hord))

/-- Only calls are answered. -/
theorem mem_answers {key : κ} {u : Nat} (h : (key, u) ∈ (after cooldown victim calls : State κ n).answers) :
    (some key, u) ∈ calls := by
  induction calls using List.reverseRecOn with
  | nil => cases h
  | append_singleton calls c ih =>
    rw [after_concat] at h
    rcases step_cases cooldown victim (after cooldown victim calls) c with
      ⟨heq, -⟩ | ⟨k, i, hk, -, heq⟩
    · rw [heq] at h
      exact List.mem_append_left _ (ih h)
    · rw [heq] at h
      rcases List.mem_append.mp h with hold | hnew
      · exact List.mem_append_left _ (ih hold)
      · cases List.mem_singleton.mp hnew
        rw [← hk]
        exact List.mem_append_right _ List.mem_cons_self

/-- A row that is taken too early leaves its key without a gate: the key is answered at once. -/
theorem not_spaced_of_taken {c : Call κ} (hwritten : Written cooldown s) (h : ¬ Spares victim s c) :
    ∃ key u, (key, u) ∈ s.answers ∧
      ¬ Spaced cooldown (step cooldown victim (step cooldown victim s c) (some key, c.2)).answers := by
  simp only [Spares, not_forall, not_le] at h
  rcases h with ⟨key, hkey, hfind, ⟨old, t⟩, hold, hlate⟩
  rcases hwritten.source _ old t hold with ⟨u, hu, rfl⟩
  have hfirst : step cooldown victim s c =
      ⟨Function.update s.table (victim s.table) (some (key, c.2 + cooldown)), s.answers ++ [(key, c.2)]⟩ := by
    rcases c with ⟨k, now⟩
    cases hkey
    simp [step, ask, hfind]
  have hgone : find (Function.update s.table (victim s.table) (some (key, c.2 + cooldown))) old = none := by
    rw [find_eq_none]
    intro i v hi
    rcases update_eq_some.mp hi with ⟨-, hsame⟩ | ⟨hne, hi⟩
    · cases hsame
      exact find_eq_none.mp hfind _ _ hold
    · exact hne (hwritten.apart i _ old v _ hi hold)
  refine ⟨old, u, hu, ?_⟩
  intro hspaced
  have hsecond : (old, u) ∈ s.answers ++ [(key, c.2)] := List.mem_append_left _ hu
  have hanswers : (step cooldown victim (step cooldown victim s c) (some old, c.2)).answers =
      s.answers ++ [(key, c.2)] ++ [(old, c.2)] := by
    rw [hfirst]
    simp [step, ask, hgone]
  rw [hanswers, Spaced, List.pairwise_append] at hspaced
  have hgap := hspaced.2.2 (old, u) hsecond (old, c.2) List.mem_cons_self rfl
  simp only at hgap hlate
  omega

/-- Whichever of the callers comes next, at every point of the run, answers to one key are a
cooldown apart, exactly when no call takes a row whose cooldown is not over. -/
theorem spaced_iff (hord : Ordered calls) :
    (∀ pre c, pre <+: calls → c.1 ∈ calls.map Prod.fst → Ordered (pre ++ [c]) →
        Spaced cooldown (after cooldown victim (pre ++ [c]) : State κ n).answers) ↔
      Runs.Every (step cooldown victim) (Spares victim) (.init : State κ n) calls := by
  constructor
  · intro h
    induction calls using List.reverseRecOn with
    | nil => trivial
    | append_singleton calls c ih =>
      have hbefore := (List.pairwise_append.mp hord).1
      rw [every_concat]
      constructor
      · apply ih hbefore
        intro pre d hpre hd
        apply h pre d (hpre.trans (List.prefix_append _ _))
        rw [List.map_append]
        exact List.mem_append_left _ hd
      by_contra htaken
      -- the caller whose row was taken calls again
      rcases not_spaced_of_taken (written_after calls) htaken with ⟨key, u, hu, hkey⟩
      apply hkey
      rw [← after_concat, ← after_concat]
      refine h (calls ++ [c]) (some key, c.2) List.prefix_rfl ?_ ?_
      · rw [List.map_append]
        exact List.mem_append_left _ (List.mem_map.mpr ⟨(some key, u), mem_answers hu, rfl⟩)
      refine List.pairwise_append.mpr ⟨hord, List.pairwise_singleton _ _, ?_⟩
      intro d hd e he
      rw [List.mem_singleton.mp he]
      rcases List.mem_append.mp hd with hd | hd
      · exact le_of_ordered hord d hd
      · rw [List.mem_singleton.mp hd]
  · rintro h pre c ⟨post, rfl⟩ - hpreOrd
    exact spaced_concat hpreOrd ((Runs.every_append _ _ _ _ _).mp h).1

end KeyedGate
