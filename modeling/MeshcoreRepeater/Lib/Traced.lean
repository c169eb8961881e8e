import Mathlib.Tactic.Common
import Mathlib.Data.List.Basic

/-! # Programs that act on a world

A program keeps a memory of its own, asks a world that answers as it likes, and leaves a
list of its acts behind. `Triple ok P p Q` says what `p` does from a state where `P` holds:
it takes no act back, and where all acts of the run so far are `ok`, its result and the
state after it satisfy `Q`; the rules carry the assumption that nothing failed, so no proof
threads it. `Ends P p Q` is the plain triple, for a world whose answers are known.

The rules follow the shape of the program: `pure`, `bind`, `ask`, `ite`, and the rules of
consequence.
-/

namespace Traced

/-- The program's memory, the world, and the acts so far, oldest first. -/
structure State (γ σ ε : Type) where
  mem : γ
  world : σ
  acts : List ε

abbrev Prog (γ σ ε α : Type) := StateM (State γ σ ε) α

variable {γ σ ε α β : Type}

/-- Ask the world, and note what was asked. -/
def ask (f : σ → α × σ) (note : α → List ε) : Prog γ σ ε α := fun s =>
  ((f s.world).1, { s with world := (f s.world).2, acts := s.acts ++ note (f s.world).1 })

/-- Change the world, and note it. -/
def push (f : σ → σ) (e : ε) : Prog γ σ ε Unit := ask (fun w => ((), f w)) fun _ => [e]

def load : Prog γ σ ε γ := fun s => (s.mem, s)

def store (m : γ) : Prog γ σ ε Unit := fun s => ((), { s with mem := m })

/-- From `P`, as long as every act is `ok`, the program ends in `Q`. -/
def Triple (ok : ε → Prop) (P : State γ σ ε → Prop) (p : Prog γ σ ε α)
    (Q : α → State γ σ ε → Prop) : Prop :=
  ∀ s, s.acts <+: (p s).2.acts ∧ (P s → (∀ e ∈ (p s).2.acts, ok e) → Q (p s).1 (p s).2)

variable {ok : ε → Prop} {P P' : State γ σ ε → Prop} {p : Prog γ σ ε α} {f : α → Prog γ σ ε β}
  {Q Q' : α → State γ σ ε → Prop} {R : β → State γ σ ε → Prop}

namespace Triple

/-! ## Rules -/

theorem grows (h : Triple ok P p Q) (s : State γ σ ε) : s.acts <+: (p s).2.acts := (h s).1

theorem run {s : State γ σ ε} (h : Triple ok P p Q) (hP : P s) (hok : ∀ e ∈ (p s).2.acts, ok e) :
    Q (p s).1 (p s).2 := (h s).2 hP hok

theorem pure {a : α} (h : ∀ s, P s → Q a s) : Triple ok P (Pure.pure a : Prog γ σ ε α) Q := by
  intro s
  exact ⟨List.prefix_rfl, fun hP _ => h s hP⟩

/-- What comes after a part can only add acts, so while the whole run is `ok` the part's is. -/
theorem bind (hp : Triple ok P p Q) (hf : ∀ a, Triple ok (Q a) (f a) R) :
    Triple ok P (p >>= f) R := by
  intro s
  have hrest := hf (p s).1 (p s).2
  refine ⟨(hp s).1.trans hrest.1, ?_⟩
  intro hP hok
  have hfirst : ∀ e ∈ (p s).2.acts, ok e := fun e he => hok e (hrest.1.subset he)
  exact hrest.2 ((hp s).2 hP hfirst) hok

theorem mono (hp : Triple ok P p Q) (hpre : ∀ s, P' s → P s) (hpost : ∀ a s, Q a s → Q' a s) :
    Triple ok P' p Q' := by
  intro s
  refine ⟨(hp s).1, ?_⟩
  intro hP hok
  exact hpost _ _ ((hp s).2 (hpre s hP) hok)

theorem pre (hp : Triple ok P p Q) (hpre : ∀ s, P' s → P s) : Triple ok P' p Q :=
  hp.mono hpre fun _ _ h => h

theorem post (hp : Triple ok P p Q) (hpost : ∀ a s, Q a s → Q' a s) : Triple ok P p Q' :=
  hp.mono (fun _ h => h) hpost

theorem and (hp : Triple ok P p Q) (hp' : Triple ok P' p Q') :
    Triple ok (fun s => P s ∧ P' s) p fun a s => Q a s ∧ Q' a s := by
  intro s
  refine ⟨(hp s).1, ?_⟩
  intro hP hok
  exact ⟨(hp s).2 hP.1 hok, (hp' s).2 hP.2 hok⟩

/-- A precondition that does not look at the state. -/
theorem given {c : Prop} (h : c → Triple ok P p Q) (hgrows : ∀ s, s.acts <+: (p s).2.acts) :
    Triple ok (fun s => c ∧ P s) p Q := by
  intro s
  refine ⟨hgrows s, ?_⟩
  intro hP hok
  exact ((h hP.1) s).2 hP.2 hok

theorem ite {c : Prop} [Decidable c] {q : Prog γ σ ε α} (hp : c → Triple ok P p Q)
    (hq : ¬c → Triple ok P q Q) : Triple ok P (if c then p else q) Q := by
  by_cases hc : c
  · rw [if_pos hc]
    exact hp hc
  · rw [if_neg hc]
    exact hq hc

theorem ask {g : σ → α × σ} {note : α → List ε}
    (h : ∀ s, P s → (∀ e ∈ note (g s.world).1, ok e) →
      Q (g s.world).1 { s with world := (g s.world).2, acts := s.acts ++ note (g s.world).1 }) :
    Triple ok P (Traced.ask g note) Q := by
  intro s
  refine ⟨List.prefix_append .., ?_⟩
  intro hP hok
  exact h s hP fun e he => hok e (List.mem_append_right _ he)

theorem push {g : σ → σ} {e : ε} {Q : State γ σ ε → Prop}
    (h : ∀ s, P s → ok e → Q { s with world := g s.world, acts := s.acts ++ [e] }) :
    Triple ok P (Traced.push g e) fun _ => Q := by
  apply ask
  intro s hP hok
  exact h s hP (hok e List.mem_cons_self)

theorem load : Triple ok P (Traced.load : Prog γ σ ε γ) fun m s => s.mem = m ∧ P s := by
  intro s
  exact ⟨List.prefix_rfl, fun hP _ => ⟨rfl, hP⟩⟩

/-- Where the memory is known. -/
theorem loaded {m : γ} {f : γ → Prog γ σ ε α} (hmem : ∀ s, P s → s.mem = m) (h : Triple ok P (f m) Q)
    (hgrows : ∀ s, s.acts <+: ((Traced.load >>= f) s).2.acts) :
    Triple ok P (Traced.load >>= f) Q := by
  intro s
  refine ⟨hgrows s, ?_⟩
  intro hP hok
  have hrun : (Traced.load >>= f) s = f m s := by
    rw [← hmem s hP]
    rfl
  rw [hrun] at hok ⊢
  exact (h s).2 hP hok

theorem store {m : γ} {Q : State γ σ ε → Prop} (h : ∀ s, P s → Q { s with mem := m }) :
    Triple ok P (Traced.store m) fun _ => Q := by
  intro s
  exact ⟨List.prefix_rfl, fun hP _ => h s hP⟩

end Triple

/-! ## The plain triple -/

/-- From `P` the program ends in `Q`. -/
def Ends (P : State γ σ ε → Prop) (p : Prog γ σ ε α) (Q : α → State γ σ ε → Prop) : Prop :=
  ∀ s, P s → Q (p s).1 (p s).2

namespace Ends

theorem pure {a : α} (h : ∀ s, P s → Q a s) : Ends P (Pure.pure a : Prog γ σ ε α) Q := h

theorem bind (hp : Ends P p Q) (hf : ∀ a, Ends (Q a) (f a) R) : Ends P (p >>= f) R :=
  fun s hP => hf _ _ (hp s hP)

/-- Where the result is known. -/
theorem known {a : α} {P' : State γ σ ε → Prop} (hp : Ends P p fun r s => r = a ∧ P' s)
    (hf : Ends P' (f a) R) : Ends P (p >>= f) R := by
  intro s hP
  have hfirst := hp s hP
  have hrun : (p >>= f) s = f a (p s).2 := by
    rw [← hfirst.1]
    rfl
  rw [hrun]
  exact hf _ hfirst.2

theorem post (hp : Ends P p Q) (hpost : ∀ a s, Q a s → Q' a s) : Ends P p Q' :=
  fun s hP => hpost _ _ (hp s hP)

theorem ask {g : σ → α × σ} {note : α → List ε}
    (h : ∀ s, P s → Q (g s.world).1
      { s with world := (g s.world).2, acts := s.acts ++ note (g s.world).1 }) :
    Ends P (Traced.ask g note) Q := h

theorem loaded {m : γ} {f : γ → Prog γ σ ε α} (hmem : ∀ s, P s → s.mem = m) (h : Ends P (f m) Q) :
    Ends P (Traced.load >>= f) Q :=
  known (fun s hP => ⟨hmem s hP, hP⟩) h

theorem store {m : γ} {Q : State γ σ ε → Prop} (h : ∀ s, P s → Q { s with mem := m }) :
    Ends P (Traced.store m) fun _ => Q := h

end Ends
end Traced
