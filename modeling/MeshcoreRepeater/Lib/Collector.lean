import Mathlib.Data.List.Induction
import Mathlib.Data.List.Nodup
import Mathlib.Data.List.Sort
import Mathlib.Tactic.Common

/-! # Wholes collected from parts

A sender sends wholes one after another, cut into parts that are numbered as they are
sent; a whole may be sent again until the next one is. Parts arrive in any order, several
times or not at all. A receiver collects one whole at a time, refuses what is older than
the last one it completed, and installs a complete one unless its version is in force
(`Receiver.take`). What it installs follows the sender's order without repeats, and is made
of all the parts of a whole that arrived, and of nothing else (`installed_of_run`).
-/

namespace Collector

variable {V α : Type}

/-! ## Parts and wholes -/

/-- One part on its way: its number, and which part of how many it is. -/
structure Part (V α : Type) where
  seq : Nat
  version : V
  count : Nat
  index : Nat
  content : α

/-- What the sender sends under one version. -/
structure Whole (V α : Type) where
  version : V
  contents : List α

/-- A part that says where it belongs, and holds what stands there. -/
structure Part.IsPartOf (p : Part V α) (w : Whole V α) : Prop where
  version : p.version = w.version
  count : p.count = w.contents.length
  content : w.contents[p.index]? = some p.content

/-- The parts that completed a whole, in the order they were taken. -/
structure Collection (V α : Type) where
  version : V
  parts : List (Part V α)

/-- Their contents, in that order. -/
def Collection.contents (c : Collection V α) : List α := c.parts.map Part.content

/-- The lowest number among the parts. -/
def lowest : List (Part V α) → Nat
  | [] => 0
  | p :: ps => ps.foldl (fun low q => min low q.seq) p.seq

/-- The highest number among the parts. -/
def highest : List (Part V α) → Nat
  | [] => 0
  | p :: ps => ps.foldl (fun high q => max high q.seq) p.seq

@[simp] theorem lowest_singleton (p : Part V α) : lowest [p] = p.seq := rfl

@[simp] theorem highest_singleton (p : Part V α) : highest [p] = p.seq := rfl

/-- A part added at the end is compared with the lowest so far. -/
theorem lowest_concat {ps : List (Part V α)} (h : ps ≠ []) (q : Part V α) :
    lowest (ps ++ [q]) = min (lowest ps) q.seq := by
  rcases List.exists_cons_of_ne_nil h with ⟨p, ps, rfl⟩
  simp [lowest, List.foldl_append]

/-- And with the highest. -/
theorem highest_concat {ps : List (Part V α)} (h : ps ≠ []) (q : Part V α) :
    highest (ps ++ [q]) = max (highest ps) q.seq := by
  rcases List.exists_cons_of_ne_nil h with ⟨p, ps, rfl⟩
  simp [highest, List.foldl_append]

/-- Some part has the lowest number. -/
theorem exists_lowest {ps : List (Part V α)} (h : ps ≠ []) : ∃ p ∈ ps, p.seq = lowest ps := by
  induction ps using List.reverseRecOn with
  | nil => exact absurd rfl h
  | append_singleton ps q ih =>
    by_cases hps : ps = []
    · subst hps
      exact ⟨q, List.mem_singleton_self q, rfl⟩
    rcases ih hps with ⟨p, hp, hlow⟩
    rw [lowest_concat hps]
    rcases le_total (lowest ps) q.seq with hle | hle
    · exact ⟨p, List.mem_append_left _ hp, by rw [hlow, min_eq_left hle]⟩
    · exact ⟨q, by simp, by rw [min_eq_right hle]⟩

/-! ## The receiver -/

/-- One whole being collected, and what has been installed. -/
structure Receiver (V α : Type) where
  /-- the parts held of the whole being collected -/
  held : List (Part V α)
  /-- the lowest number of the last whole completed -/
  floor : Nat
  inForce : V
  installed : List (Collection V α)

/-- Nothing is held, nothing installed. -/
def Receiver.start (inForce : V) : Receiver V α := ⟨[], 0, inForce, []⟩

variable [DecidableEq V]

/-- A part joins those held, and may complete the whole. -/
def Receiver.add (r : Receiver V α) (held : List (Part V α)) (p : Part V α) : Receiver V α :=
  if ∀ i < p.count, ∃ q ∈ held ++ [p], q.index = i then
    { held := []
      floor := lowest (held ++ [p])
      inForce := p.version
      installed := if p.version = r.inForce then r.installed
        else r.installed ++ [⟨p.version, held ++ [p]⟩] }
  else { r with held := held ++ [p] }

/-- A part arrives. A part of another whole replaces what is held when it is newer than
all of it. -/
def Receiver.take (r : Receiver V α) (p : Part V α) : Receiver V α :=
  if p.seq < r.floor then r
  else
    match r.held with
    | [] => r.add [] p
    | q :: _ =>
      if p.version ≠ q.version ∨ p.count ≠ q.count then
        if p.seq ≤ highest r.held then r else r.add [] p
      else if ∃ x ∈ r.held, x.index = p.index then r
      else r.add r.held p

/-- A part older than the last whole is dropped. -/
theorem Receiver.take_old {r : Receiver V α} {p : Part V α} (h : p.seq < r.floor) : r.take p = r := if_pos h

/-- The first part of a whole is taken. -/
theorem Receiver.take_first {r : Receiver V α} {p : Part V α} (hfloor : ¬ p.seq < r.floor)
    (hheld : r.held = []) : r.take p = r.add [] p := by
  rw [take, if_neg hfloor, hheld]

/-- Beside parts that are held it depends on their version, count and numbers. -/
theorem Receiver.take_held {r : Receiver V α} {p q : Part V α} {rest : List (Part V α)}
    (hfloor : ¬ p.seq < r.floor) (hheld : r.held = q :: rest) :
    r.take p = if p.version ≠ q.version ∨ p.count ≠ q.count then
        if p.seq ≤ highest r.held then r else r.add [] p
      else if ∃ x ∈ r.held, x.index = p.index then r else r.add r.held p := by
  rw [take, if_neg hfloor]
  simp only [hheld]

/-! ## The sender -/

/-- The place of a version in the sender's order. -/
def place (wholes : List (Whole V α)) (version : V) : Nat := (wholes.map Whole.version).idxOf version

/-- What is sent are parts of the wholes, those of a whole before those of the next one. -/
structure Sender (wholes : List (Whole V α)) (sent : Part V α → Prop) : Prop where
  distinct : (wholes.map Whole.version).Nodup
  genuine : ∀ p, sent p → ∃ w ∈ wholes, p.IsPartOf w
  ordered : ∀ p q, sent p → sent q → place wholes p.version < place wholes q.version → p.seq < q.seq

namespace Sender

variable {wholes : List (Whole V α)} {sent : Part V α → Prop}

/-- What is sent has a version of the sender's. -/
theorem mem_versions (h : Sender wholes sent) {p : Part V α} (hp : sent p) :
    p.version ∈ wholes.map Whole.version := by
  rcases h.genuine p hp with ⟨w, hw, hpart⟩
  rw [hpart.version]
  exact List.mem_map_of_mem hw

/-- A part of another version with a number no lower is of a later whole. -/
theorem place_lt (h : Sender wholes sent) {p q : Part V α} (hp : sent p) (hq : sent q)
    (hseq : p.seq ≤ q.seq) (hne : q.version ≠ p.version) :
    place wholes p.version < place wholes q.version := by
  rcases lt_trichotomy (place wholes p.version) (place wholes q.version) with hlt | heq | hgt
  · exact hlt
  · exact absurd ((List.idxOf_inj (h.mem_versions hp)).mp heq).symm hne
  · exact absurd (h.ordered q p hq hp hgt) (not_lt.mpr hseq)

end Sender

/-! ## What is collected -/

/-- Parts of one whole that arrived, none of them twice. -/
structure Held (arrived : List (Part V α)) (version : V) (count : Nat) (ps : List (Part V α)) : Prop where
  arrived : ∀ p ∈ ps, p ∈ arrived
  version : ∀ p ∈ ps, p.version = version
  count : ∀ p ∈ ps, p.count = count
  once : (ps.map Part.index).Nodup

omit [DecidableEq V] in
/-- Nothing is held. -/
theorem Held.nil (arrived : List (Part V α)) (version : V) (count : Nat) : Held arrived version count [] :=
  ⟨by nofun, by nofun, by nofun, List.nodup_nil⟩

omit [DecidableEq V] in
/-- A part whose index is missing joins the others. -/
theorem Held.concat {arrived ps : List (Part V α)} {p : Part V α}
    (h : Held arrived p.version p.count ps) (hnew : ∀ q ∈ ps, q.index ≠ p.index) :
    Held (arrived ++ [p]) p.version p.count (ps ++ [p]) := by
  constructor
  · intro q hq
    rcases List.mem_append.mp hq with hold | hlast
    · exact List.mem_append_left _ (h.arrived q hold)
    · exact List.mem_append_right _ hlast
  · intro q hq
    rcases List.mem_append.mp hq with hold | hlast
    · exact h.version q hold
    · rw [List.mem_singleton.mp hlast]
  · intro q hq
    rcases List.mem_append.mp hq with hold | hlast
    · exact h.count q hold
    · rw [List.mem_singleton.mp hlast]
  · rw [List.map_append, List.map_singleton]
    refine List.nodup_append.mpr ⟨h.once, List.nodup_singleton _, ?_⟩
    intro i hi j hj
    rcases List.mem_map.mp hi with ⟨q, hq, rfl⟩
    rw [List.mem_singleton.mp hj]
    exact hnew q hq

omit [DecidableEq V] in
/-- What is held is still held after another part has come. -/
theorem Held.mono {arrived ps : List (Part V α)} {version : V} {count : Nat} (p : Part V α)
    (h : Held arrived version count ps) : Held (arrived ++ [p]) version count ps :=
  ⟨fun q hq => List.mem_append_left _ (h.arrived q hq), h.version, h.count, h.once⟩

/-- A whole that is complete. -/
structure Complete (arrived : List (Part V α)) (c : Collection V α) : Prop where
  held : ∃ count, Held arrived c.version count c.parts ∧ ∀ i < count, ∃ p ∈ c.parts, p.index = i
  nonempty : c.parts ≠ []

omit [DecidableEq V] in
/-- So is what is complete. -/
theorem Complete.mono {arrived : List (Part V α)} {c : Collection V α} (p : Part V α)
    (h : Complete arrived c) : Complete (arrived ++ [p]) c := by
  rcases h.held with ⟨count, hheld, hall⟩
  exact ⟨⟨count, hheld.mono p, hall⟩, h.nonempty⟩

/-- A complete collection holds the contents of one whole, in the order of arrival. -/
theorem Complete.contents {wholes : List (Whole V α)} {sent : Part V α → Prop} (h : Sender wholes sent)
    {arrived : List (Part V α)} (harrived : ∀ p ∈ arrived, sent p) {c : Collection V α}
    (hc : Complete arrived c) :
    ∃ w ∈ wholes, w.version = c.version ∧
      (∀ i < w.contents.length, ∃ p ∈ arrived, p.IsPartOf w ∧ p.index = i) ∧
      c.contents.Perm w.contents := by
  rcases hc.held with ⟨count, hheld, hall⟩
  rcases List.exists_mem_of_ne_nil _ hc.nonempty with ⟨p, hp⟩
  rcases h.genuine p (harrived p (hheld.arrived p hp)) with ⟨w, hw, hpart⟩
  have hversion : w.version = c.version := hpart.version.symm.trans (hheld.version p hp)
  -- one version, one whole
  have hpart : ∀ q ∈ c.parts, q.IsPartOf w := by
    intro q hq
    rcases h.genuine q (harrived q (hheld.arrived q hq)) with ⟨w', hw', hpart'⟩
    have hsame : w' = w := List.inj_on_of_nodup_map h.distinct hw' hw
      (hpart'.version.symm.trans ((hheld.version q hq).trans hversion.symm))
    exact hsame ▸ hpart'
  have hcount : count = w.contents.length := (hheld.count p hp).symm.trans (hpart p hp).count
  -- every index once
  have hindex : (c.parts.map Part.index).Perm (List.range w.contents.length) := by
    rw [List.perm_ext_iff_of_nodup hheld.once List.nodup_range]
    intro i
    rw [List.mem_range, List.mem_map]
    constructor
    · rintro ⟨q, hq, rfl⟩
      exact (List.getElem?_eq_some_iff.mp (hpart q hq).content).1
    · intro hi
      exact hall i (hcount ▸ hi)
  refine ⟨w, hw, hversion, ?_, ?_⟩
  · intro i hi
    rcases hall i (hcount ▸ hi) with ⟨q, hq, rfl⟩
    exact ⟨q, hheld.arrived q hq, hpart q hq, rfl⟩
  -- looked up by index, the contents are those of the parts
  have hlookup : (c.parts.map Part.index).filterMap (w.contents[·]?) = c.contents := by
    rw [List.filterMap_map, Collection.contents, ← List.filterMap_eq_map]
    refine List.filterMap_congr ?_
    intro q hq
    exact (hpart q hq).content
  -- in order of the index they are those of the whole
  have hwhole : (List.range w.contents.length).filterMap (w.contents[·]?) = w.contents := by
    refine List.ext_getElem? ?_
    intro i
    have hmap : (List.range w.contents.length).map (w.contents[·]?) = w.contents.map some := by
      refine List.ext_getElem (by simp) ?_
      intro i hi hi'
      simp
    have hfilter : (List.range w.contents.length).filterMap (w.contents[·]?) =
        ((List.range w.contents.length).map (w.contents[·]?)).filterMap id := by
      rw [List.filterMap_map]
      rfl
    rw [hfilter, hmap]
    simp
  have hperm := hindex.filterMap (w.contents[·]?)
  rw [hlookup, hwhole] at hperm
  exact hperm

/-! ## Runs -/

/-- What holds of a receiver, after the parts that arrived. -/
structure Inv (wholes : List (Whole V α)) (arrived : List (Part V α)) (r : Receiver V α) : Prop where
  held : ∃ version count, Held arrived version count r.held
  recent : ∀ p ∈ r.held, r.floor ≤ p.seq
  /-- the last whole completed is in force -/
  last : r.floor = 0 ∧ r.installed = [] ∨ ∃ p ∈ arrived, p.seq = r.floor ∧ p.version = r.inForce
  complete : ∀ c ∈ r.installed, Complete arrived c
  ordered : (r.installed.map Collection.version).Pairwise fun v w => place wholes v < place wholes w
  upTo : ∀ c ∈ r.installed, place wholes c.version ≤ place wholes r.inForce

variable {wholes : List (Whole V α)} {sent : Part V α → Prop} {arrived : List (Part V α)}
  {r : Receiver V α} {p : Part V α}

/-- A part that is dropped. -/
theorem Inv.mono (h : Inv wholes arrived r) (p : Part V α) : Inv wholes (arrived ++ [p]) r where
  held := by
    rcases h.held with ⟨version, count, hheld⟩
    exact ⟨version, count, hheld.mono p⟩
  recent := h.recent
  last := h.last.imp id fun ⟨q, hq, hlast⟩ => ⟨q, List.mem_append_left _ hq, hlast⟩
  complete := fun c hc => (h.complete c hc).mono p
  ordered := h.ordered
  upTo := h.upTo

/-- A part that joins keeps the invariant, whether or not it completes the whole. -/
theorem Inv.add (hsends : Sender wholes sent) (harrived : ∀ q ∈ arrived, sent q) (hp : sent p)
    (h : Inv wholes arrived r) {held : List (Part V α)} (hheld : Held arrived p.version p.count held)
    (hnew : ∀ q ∈ held, q.index ≠ p.index) (hrecent : ∀ q ∈ held ++ [p], r.floor ≤ q.seq) :
    Inv wholes (arrived ++ [p]) (r.add held p) := by
  have hjoined := hheld.concat hnew
  have hne : held ++ [p] ≠ [] := by simp
  have hkept := h.mono p
  unfold Receiver.add
  split
  · rename_i hall
    -- the floor is the number of a part that arrived
    rcases exists_lowest hne with ⟨q, hq, hlow⟩
    have hversion : q.version = p.version := hjoined.version q hq
    refine ⟨⟨p.version, p.count, .nil _ _ _⟩, by nofun, .inr ⟨q, hjoined.arrived q hq, hlow, hversion⟩,
      ?_, ?_, ?_⟩
    all_goals simp only
    all_goals split
    · exact hkept.complete
    · intro c hc
      rcases List.mem_append.mp hc with hold | hlast
      · exact hkept.complete c hold
      · rw [List.mem_singleton.mp hlast]
        exact ⟨⟨p.count, hjoined, hall⟩, hne⟩
    · exact h.ordered
    all_goals rename_i hforce
    · -- the new version comes after the one in force, and so after all installed
      rw [List.map_append, List.map_singleton]
      refine List.pairwise_append.mpr ⟨h.ordered, List.pairwise_singleton _ _, ?_⟩
      intro v hv w hw
      rcases List.mem_map.mp hv with ⟨c, hc, rfl⟩
      rw [List.mem_singleton.mp hw]
      rcases h.last with ⟨-, hnone⟩ | ⟨x, hx, hfloor, hinForce⟩
      · rw [hnone] at hc
        cases hc
      · have hle : x.seq ≤ p.seq := hfloor.trans_le (hrecent p (by simp))
        have hlt := hsends.place_lt (harrived x hx) hp hle (by rw [hinForce]; exact hforce)
        rw [hinForce] at hlt
        exact (h.upTo c hc).trans_lt hlt
    · intro c hc
      rw [hforce]
      exact h.upTo c hc
    · intro c hc
      rcases List.mem_append.mp hc with hold | hlast
      · rcases h.last with ⟨-, hnone⟩ | ⟨x, hx, hfloor, hinForce⟩
        · rw [hnone] at hold
          cases hold
        · have hle : x.seq ≤ p.seq := hfloor.trans_le (hrecent p (by simp))
          have hlt := hsends.place_lt (harrived x hx) hp hle (by rw [hinForce]; exact hforce)
          rw [hinForce] at hlt
          exact (h.upTo c hold).trans hlt.le
      · rw [List.mem_singleton.mp hlast]
  · exact ⟨⟨p.version, p.count, hjoined⟩, hrecent, hkept.last, hkept.complete, hkept.ordered, hkept.upTo⟩

/-- One arrival keeps the invariant: the four ways of `take`. -/
theorem Inv.take (hsends : Sender wholes sent) (harrived : ∀ q ∈ arrived, sent q) (hp : sent p)
    (h : Inv wholes arrived r) : Inv wholes (arrived ++ [p]) (r.take p) := by
  by_cases hfloor : p.seq < r.floor
  · rw [Receiver.take_old hfloor]
    exact h.mono p
  -- a part that begins a new collection
  have hfresh : Inv wholes (arrived ++ [p]) (r.add [] p) := by
    refine h.add hsends harrived hp (.nil _ _ _) (by nofun) ?_
    intro q hq
    rw [List.mem_singleton.mp hq]
    exact not_lt.mp hfloor
  cases hheld : r.held with
  | nil =>
    rw [Receiver.take_first hfloor hheld]
    exact hfresh
  | cons q rest =>
  rw [Receiver.take_held hfloor hheld]
  split
  · split
    · exact h.mono p
    · exact hfresh
  rename_i hsame
  split
  · exact h.mono p
  rename_i hmissing
  -- one more part of the whole being collected
  rcases h.held with ⟨version, count, hparts⟩
  have hq : q ∈ r.held := by
    rw [hheld]
    exact List.mem_cons_self
  have hversion : version = p.version := by
    rw [← hparts.version q hq]
    by_contra hne
    exact hsame (.inl fun heq => hne heq.symm)
  have hcount : count = p.count := by
    rw [← hparts.count q hq]
    by_contra hne
    exact hsame (.inr fun heq => hne heq.symm)
  subst hversion hcount
  refine h.add hsends harrived hp hparts ?_ ?_
  · intro x hx heq
    exact hmissing ⟨x, hx, heq⟩
  · intro x hx
    rcases List.mem_append.mp hx with hold | hlast
    · exact h.recent x hold
    · rw [List.mem_singleton.mp hlast]
      exact not_lt.mp hfloor

/-- It holds when nothing has arrived. -/
theorem inv_start (wholes : List (Whole V α)) (inForce : V) :
    Inv wholes [] (Receiver.start inForce) where
  held := ⟨inForce, 0, .nil _ _ _⟩
  recent := by nofun
  last := .inl ⟨rfl, rfl⟩
  complete := by nofun
  ordered := List.Pairwise.nil
  upTo := by nofun

/-- It holds after any arrivals. -/
theorem inv_of_run (hsends : Sender wholes sent) (inForce : V) (harrived : ∀ p ∈ arrived, sent p) :
    Inv wholes arrived (arrived.foldl Receiver.take (.start inForce)) := by
  induction arrived using List.reverseRecOn with
  | nil => exact inv_start wholes inForce
  | append_singleton ps p ih =>
    have hps : ∀ q ∈ ps, sent q := fun q hq => harrived q (List.mem_append_left _ hq)
    rw [List.foldl_append]
    exact (ih hps).take hsends hps (harrived p (by simp))

/-- Whatever parts arrive, in whatever order: what is installed follows the sender's order
without repeats, and every collection installed is a whole, each part of which arrived. -/
theorem installed_of_run (hsends : Sender wholes sent) (inForce : V) (harrived : ∀ p ∈ arrived, sent p) :
    let r := arrived.foldl Receiver.take (.start inForce)
    (r.installed.map Collection.version).Sublist (wholes.map Whole.version) ∧
      ∀ c ∈ r.installed, ∃ w ∈ wholes, w.version = c.version ∧
        (∀ i < w.contents.length, ∃ p ∈ arrived, p.IsPartOf w ∧ p.index = i) ∧
        c.contents.Perm w.contents := by
  intro r
  have h : Inv wholes arrived r := inv_of_run hsends inForce harrived
  have hwhole := fun c (hc : c ∈ r.installed) => (h.complete c hc).contents hsends harrived
  refine ⟨?_, hwhole⟩
  -- a sublist is a subset in the same order
  have hanti : Std.Antisymm fun v w => place wholes v < place wholes w :=
    ⟨fun v w hvw hwv => absurd hvw hwv.asymm⟩
  have hplaces : (wholes.map Whole.version).Pairwise fun v w => place wholes v < place wholes w := by
    rw [List.pairwise_iff_getElem]
    intro i j hi hj hij
    rw [place, place, hsends.distinct.idxOf_getElem, hsends.distinct.idxOf_getElem]
    exact hij
  refine List.sublist_of_subperm_of_pairwise (List.subperm_of_subset ?_ ?_) h.ordered hplaces
  · exact h.ordered.imp fun hlt heq => (lt_irrefl _ (heq ▸ hlt)).elim
  · intro v hv
    rcases List.mem_map.mp hv with ⟨c, hc, rfl⟩
    rcases hwhole c hc with ⟨w, hw, hversion, -⟩
    rw [← hversion]
    exact List.mem_map_of_mem hw

end Collector
