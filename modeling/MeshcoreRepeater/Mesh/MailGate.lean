import MeshcoreRepeater.Mesh.Services
import MeshcoreRepeater.Lib.KeyedGate

/-! # The gates of the mailbox

`mbox_rate_ok` is a limiter of eight gates (`mboxState_rateStep`): a ninth station takes the
gate that opens first, open or not. `mboxAnswers_spaced_iff` says when replies to one station
stay a cooldown apart.

* `mboxState_rateStep`: the eight gates are a limiter.
* `mboxAnswers_spaced_iff`: when answers to one station are a cooldown apart.
* `nineStations_notSpaced`: when they are not.
-/

namespace Meshcore

open ByteLib

/-! ## Calls and answers -/

/-- A call of `mbox_rate_ok`: the sender and the time. -/
abbrev MboxCall := Bytes × Nat

/-- The repeater, and the calls that were answered so far. -/
abbrev MboxRun := McMesh × List MboxCall

/-- One call of `mbox_rate_ok`. -/
def rateStep (x : MboxRun) (c : MboxCall) : MboxRun :=
  let r := mboxRateOk x.1 c.1 c.2
  (r.1, if r.2 then x.2 ++ [c] else x.2)

/-- The calls that returned true, in order. -/
def mboxAnswers (m : McMesh) (calls : List MboxCall) : List MboxCall := (Runs.run rateStep (m, []) calls).2

/-- One station, whatever its SSID and case. -/
def SameStation (s t : Bytes) : Prop := strcaseEq (baseCall s mcMboxCall) (baseCall t mcMboxCall) = true

/-- Answers to one station are a cooldown apart. -/
def AnswersSpaced (answers : List MboxCall) : Prop :=
  answers.Pairwise fun c d => SameStation c.1 d.1 → c.2 + mboxReplyCooldownMs ≤ d.2

/-- The times do not go back. -/
def CallsOrdered (calls : List MboxCall) : Prop := calls.Pairwise fun c d => c.2 ≤ d.2

/-- The gate of a station. -/
def HasGate (m : McMesh) (sender : Bytes) : Prop :=
  ∃ k, (m.mboxGate k).call ≠ [] ∧ strcaseEq (m.mboxGate k).call (baseCall sender mcMboxCall) = true

/-- A station with no gate finds a free one, or one that is open. -/
def SparesGates (x : MboxRun) (c : MboxCall) : Prop :=
  baseCall c.1 mcMboxCall ≠ [] → ¬ HasGate x.1 c.1 →
    (x.1.mboxGate (newMboxGate x.1.mboxGate)).call = [] ∨ (x.1.mboxGate (newMboxGate x.1.mboxGate)).nextMs ≤ c.2

/-! ## The limiter behind it -/

/-- A row of the limiter. -/
def MboxGate.row (g : MboxGate) : Option (Bytes × Nat) :=
  if g.call = [] then none else some (g.call.map tolower, g.nextMs)

/-- The key of a sender, if it has a name. -/
def stationKey (sender : Bytes) : Option Bytes :=
  if baseCall sender mcMboxCall = [] then none else some ((baseCall sender mcMboxCall).map tolower)

/-- The table of the limiter. -/
def mboxTable (gate : Fin 8 → MboxGate) : KeyedGate.Table Bytes 8 := fun k => (gate k).row

/-- A free row, else the one that opens first. -/
def mboxVictim (T : KeyedGate.Table Bytes 8) : Fin 8 :=
  newMboxGate fun k => (T k).elim ⟨[], 0⟩ fun g => ⟨g.1, g.2⟩

/-- A call as the limiter sees it. -/
def mboxCallKey (c : MboxCall) : KeyedGate.Call Bytes := (stationKey c.1, c.2)

/-- The limiter behind a run. -/
def mboxState (x : MboxRun) : KeyedGate.State Bytes 8 where
  table := mboxTable x.1.mboxGate
  answers := x.2.map fun c => ((baseCall c.1 mcMboxCall).map tolower, c.2)

/-- A row is free where the gate is. -/
theorem MboxGate.row_eq_none {g : MboxGate} : g.row = none ↔ g.call = [] := by
  unfold row
  split
  · simp [*]
  · simp [*]

/-- And else holds the station and its time. -/
theorem MboxGate.row_eq_some {g : MboxGate} (h : g.call ≠ []) : g.row = some (g.call.map tolower, g.nextMs) :=
  if_neg h

/-- A station is known by its name in lower case. -/
theorem stationKey_eq_some {sender : Bytes} (h : baseCall sender mcMboxCall ≠ []) :
    stationKey sender = some ((baseCall sender mcMboxCall).map tolower) := if_neg h

/-- Both choose the same gate. -/
theorem mboxVictim_table (gate : Fin 8 → MboxGate) : mboxVictim (mboxTable gate) = newMboxGate gate := by
  generalize hread : (fun k => (mboxTable gate k).elim ⟨[], 0⟩ fun g => ⟨g.1, g.2⟩ : Fin 8 → MboxGate) = read
  -- a row is free when the gate is, and otherwise opens with it
  have hrow : ∀ k, (read k).call.isEmpty = (gate k).call.isEmpty ∧
      ((gate k).call ≠ [] → (read k).nextMs = (gate k).nextMs) := by
    intro k
    subst hread
    by_cases hcall : (gate k).call = []
    · simp [mboxTable, MboxGate.row, hcall]
    · simp [mboxTable, MboxGate.row, hcall]
  have hfree : (fun k => (read k).call.isEmpty) = fun k => (gate k).call.isEmpty := by
    funext k
    exact (hrow k).1
  show newMboxGate (fun k => (mboxTable gate k).elim ⟨[], 0⟩ fun g => ⟨g.1, g.2⟩) = newMboxGate gate
  rw [hread]
  unfold newMboxGate
  rw [hfree]
  cases hfind : (List.finRange 8).find? fun k => (gate k).call.isEmpty with
  | some k => rfl
  | none =>
    have htime : ∀ k, (read k).nextMs = (gate k).nextMs := by
      intro k
      apply (hrow k).2
      have := List.find?_eq_none.mp hfind k (List.mem_finRange k)
      simpa using this
    simp only [htime]

/-- The row of a station is its gate. -/
theorem mbox_find (gate : Fin 8 → MboxGate) (base : Bytes) :
    KeyedGate.find (mboxTable gate) (base.map tolower) =
      (List.finRange 8).find? fun k => !(gate k).call.isEmpty && strcaseEq (gate k).call base := by
  unfold KeyedGate.find
  congr 1
  funext k
  unfold mboxTable MboxGate.row
  split
  · rename_i hnil
    simp [hnil]
  · rename_i hcall
    have hfull : (gate k).call.isEmpty = false := by simpa using hcall
    simp [hfull, strcaseEq]

/-- Writing a gate writes its row. -/
theorem mboxTable_update (gate : Fin 8 → MboxGate) (k : Fin 8) {call : Bytes} (h : call ≠ []) (t : Nat) :
    mboxTable (Function.update gate k ⟨call, t⟩) =
      Function.update (mboxTable gate) k (some (call.map tolower, t)) := by
  funext j
  unfold mboxTable
  by_cases hj : j = k
  · subst hj
    rw [Function.update_self, Function.update_self]
    exact MboxGate.row_eq_some h
  · rw [Function.update_of_ne hj, Function.update_of_ne hj]

/-- The eight gates are a limiter with a key for each station. -/
theorem mboxState_rateStep (x : MboxRun) (c : MboxCall) :
    mboxState (rateStep x c) = KeyedGate.step mboxReplyCooldownMs mboxVictim (mboxState x) (mboxCallKey c) := by
  rcases x with ⟨m, answers⟩
  rcases c with ⟨sender, now⟩
  by_cases hbase : baseCall sender mcMboxCall = []
  · have hkey : stationKey sender = none := if_pos hbase
    simp [rateStep, mboxRateOk, hbase, KeyedGate.step, KeyedGate.ask, mboxCallKey, hkey, mboxState]
  have hkey := stationKey_eq_some hbase
  have hne : (baseCall sender mcMboxCall).isEmpty = false := by simpa using hbase
  -- a base call fits the array
  have hcut : snprintfS mcMboxCall (baseCall sender mcMboxCall) = baseCall sender mcMboxCall := by
    apply List.take_of_length_le
    exact List.length_take_le _ _
  have hlimiter := mbox_find m.mboxGate (baseCall sender mcMboxCall)
  cases hfind : (List.finRange 8).find? fun k =>
      !(m.mboxGate k).call.isEmpty && strcaseEq (m.mboxGate k).call (baseCall sender mcMboxCall) with
  | none =>
    -- a new gate
    rw [hfind] at hlimiter
    have hnew : mboxRateOk m sender now = ({ m with
        mboxGate := Function.update m.mboxGate (newMboxGate m.mboxGate)
          ⟨snprintfS mcMboxCall (baseCall sender mcMboxCall), now + mboxReplyCooldownMs⟩ }, true) := by
      simp only [mboxRateOk, hne, hfind]
      rfl
    have hask : KeyedGate.ask mboxReplyCooldownMs mboxVictim (mboxTable m.mboxGate) (mboxCallKey (sender, now)) =
        (Function.update (mboxTable m.mboxGate) (newMboxGate m.mboxGate)
          (some ((baseCall sender mcMboxCall).map tolower, now + mboxReplyCooldownMs)), true) := by
      simp only [KeyedGate.ask, mboxCallKey, hkey, hlimiter, mboxVictim_table]
    rw [rateStep, hnew, KeyedGate.step, mboxState, mboxState]
    simp only [hask, if_true, hcut, mboxTable_update _ _ hbase, List.map_append]
    simp [mboxCallKey, hkey]
  | some k =>
    rw [hfind] at hlimiter
    -- the gate that was found is this station's
    have hmatch := List.find?_some hfind
    simp only [Bool.and_eq_true, Bool.not_eq_true'] at hmatch
    have hcall : (m.mboxGate k).call ≠ [] := by simpa using hmatch.1
    have hsame : (m.mboxGate k).call.map tolower = (baseCall sender mcMboxCall).map tolower := by
      simpa [strcaseEq] using hmatch.2
    have hrow : mboxTable m.mboxGate k = some ((baseCall sender mcMboxCall).map tolower, (m.mboxGate k).nextMs) := by
      rw [← hsame]
      exact MboxGate.row_eq_some hcall
    by_cases hnow : now < (m.mboxGate k).nextMs
    · -- still cooling down
      have hold : mboxRateOk m sender now = (m, false) := by
        simp only [mboxRateOk, hne, hfind, if_pos hnow]
        rfl
      have hask : KeyedGate.ask mboxReplyCooldownMs mboxVictim (mboxTable m.mboxGate) (mboxCallKey (sender, now)) =
          (mboxTable m.mboxGate, false) := by
        simp [KeyedGate.ask, mboxCallKey, hkey, hlimiter, hrow, hnow]
      have hsame : rateStep (m, answers) (sender, now) = (m, answers) := by
        rw [rateStep, hold]
        rfl
      rw [hsame, KeyedGate.step, mboxState]
      simp only [hask]
      rfl
    · have hopen : mboxRateOk m sender now = ({ m with
          mboxGate := Function.update m.mboxGate k ⟨(m.mboxGate k).call, now + mboxReplyCooldownMs⟩ }, true) := by
        simp only [mboxRateOk, hne, hfind, if_neg hnow]
        rfl
      have hask : KeyedGate.ask mboxReplyCooldownMs mboxVictim (mboxTable m.mboxGate) (mboxCallKey (sender, now)) =
          (Function.update (mboxTable m.mboxGate) k
            (some ((baseCall sender mcMboxCall).map tolower, now + mboxReplyCooldownMs)), true) := by
        simp [KeyedGate.ask, mboxCallKey, hkey, hlimiter, hrow, hnow]
      rw [rateStep, hopen, KeyedGate.step, mboxState, mboxState]
      simp only [hask, if_true, mboxTable_update _ _ hcall, hsame, List.map_append]
      simp [mboxCallKey, hkey]

/-- The limiter finds the gates of `mbox_rate_ok`. -/
theorem hasGate_iff (m : McMesh) {sender : Bytes} :
    HasGate m sender ↔ KeyedGate.find (mboxTable m.mboxGate) ((baseCall sender mcMboxCall).map tolower) ≠ none := by
  rw [mbox_find, ne_eq, List.find?_eq_none]
  simp [HasGate]

/-- To spare gates is the same for both. -/
theorem sparesGates_iff (x : MboxRun) (c : MboxCall) :
    SparesGates x c ↔ KeyedGate.Spares mboxVictim (mboxState x) (mboxCallKey c) := by
  rcases c with ⟨sender, now⟩
  have hvictim := mboxVictim_table x.1.mboxGate
  constructor
  · intro h key hkey hfind g hg
    have hbase : baseCall sender mcMboxCall ≠ [] := by
      intro hnil
      have hnone : stationKey sender = none := if_pos hnil
      change stationKey sender = some key at hkey
      rw [hnone] at hkey
      cases hkey
    have hkey' : (baseCall sender mcMboxCall).map tolower = key := by
      have := (stationKey_eq_some hbase).symm.trans hkey
      exact Option.some.inj this
    have hgate : ¬ HasGate x.1 sender := by
      rw [hasGate_iff, hkey']
      exact fun hsome => hsome hfind
    change mboxTable x.1.mboxGate (mboxVictim (mboxTable x.1.mboxGate)) = some g at hg
    rw [hvictim] at hg
    rcases h hbase hgate with hfree | hopen
    · change MboxGate.row _ = some g at hg
      rw [MboxGate.row_eq_none.mpr hfree] at hg
      cases hg
    · change MboxGate.row _ = some g at hg
      unfold MboxGate.row at hg
      split at hg
      · cases hg
      · cases hg
        exact hopen
  · intro h hbase hgate
    have hfind : KeyedGate.find (mboxTable x.1.mboxGate) ((baseCall sender mcMboxCall).map tolower) = none := by
      by_contra hsome
      exact hgate ((hasGate_iff x.1).mpr hsome)
    by_cases hfree : (x.1.mboxGate (newMboxGate x.1.mboxGate)).call = []
    · exact .inl hfree
    right
    have hrow : mboxTable x.1.mboxGate (mboxVictim (mboxTable x.1.mboxGate)) =
        some ((x.1.mboxGate (newMboxGate x.1.mboxGate)).call.map tolower,
          (x.1.mboxGate (newMboxGate x.1.mboxGate)).nextMs) := by
      rw [hvictim]
      exact MboxGate.row_eq_some hfree
    exact h _ (stationKey_eq_some hbase) hfind _ hrow

/-! ## Whole runs -/

section
variable {m : McMesh} {calls : List MboxCall}

/-- Cleared gates are an empty table. -/
theorem mboxState_init (hclear : ∀ k, (m.mboxGate k).call = []) : mboxState (m, []) = KeyedGate.State.init := by
  have htable : mboxTable m.mboxGate = fun _ => none := by
    funext k
    exact MboxGate.row_eq_none.mpr (hclear k)
  rw [mboxState, htable]
  rfl

/-- The answers to the stations are those of the limiter to its keys. -/
theorem mboxAnswers_keys (hclear : ∀ k, (m.mboxGate k).call = []) (calls : List MboxCall) :
    ((mboxAnswers m calls).map fun c => ((baseCall c.1 mcMboxCall).map tolower, c.2)) =
      (KeyedGate.after mboxReplyCooldownMs mboxVictim (calls.map mboxCallKey)).answers := by
  have hrun := Runs.run_map mboxState mboxCallKey mboxState_rateStep (m, []) calls
  rw [mboxState_init hclear] at hrun
  exact congrArg KeyedGate.State.answers hrun

/-- Spacing by station is spacing by key. -/
theorem answersSpaced_iff (answers : List MboxCall) :
    AnswersSpaced answers ↔ KeyedGate.Spaced mboxReplyCooldownMs
      (answers.map fun c => ((baseCall c.1 mcMboxCall).map tolower, c.2)) := by
  rw [AnswersSpaced, KeyedGate.Spaced, List.pairwise_map]
  simp [SameStation, strcaseEq]

/-- And the times are the same. -/
theorem callsOrdered_iff (calls : List MboxCall) : CallsOrdered calls ↔ KeyedGate.Ordered (calls.map mboxCallKey) := by
  rw [CallsOrdered, KeyedGate.Ordered, List.pairwise_map]
  rfl

/-- From a cleared table: whatever call comes next, at every point of the run, answers to one
station are a cooldown apart, exactly when no call takes a gate that is not open yet. -/
theorem mboxAnswers_spaced_iff (hclear : ∀ k, (m.mboxGate k).call = []) (hord : CallsOrdered calls) :
    (∀ pre c, pre <+: calls → CallsOrdered (pre ++ [c]) → AnswersSpaced (mboxAnswers m (pre ++ [c]))) ↔
      Runs.Every rateStep SparesGates (m, []) calls := by
  have hevery := Runs.every_map mboxState mboxCallKey mboxState_rateStep sparesGates_iff (m, []) calls
  have hordKeys := (callsOrdered_iff calls).mp hord
  rw [mboxState_init hclear] at hevery
  rw [hevery]
  constructor
  · intro h
    apply (KeyedGate.spaced_iff hordKeys).mp
    rintro pre ⟨key, now⟩ hpre hkey hpreOrd
    -- the next call is one of a station that called before
    rcases List.prefix_map_iff.mp hpre with ⟨pre, hstart, rfl⟩
    rw [List.map_map] at hkey
    rcases List.mem_map.mp hkey with ⟨d, -, hd⟩
    have hcall : (key, now) = mboxCallKey (d.1, now) := by
      have hstation : stationKey d.1 = key := hd
      rw [← hstation]
      rfl
    have hmap : pre.map mboxCallKey ++ [(key, now)] = (pre ++ [(d.1, now)]).map mboxCallKey := by
      rw [hcall, List.map_append]
      rfl
    rw [hmap] at hpreOrd ⊢
    rw [← mboxAnswers_keys hclear, ← answersSpaced_iff]
    exact h pre _ hstart ((callsOrdered_iff _).mpr hpreOrd)
  · rintro h pre c ⟨post, rfl⟩ hpreOrd
    rw [answersSpaced_iff, mboxAnswers_keys hclear]
    rw [callsOrdered_iff] at hpreOrd
    rw [List.map_append] at hpreOrd h ⊢
    exact KeyedGate.spaced_concat hpreOrd ((Runs.every_append _ _ _ _ _).mp h).1

end

/-- A repeater that has just been started. -/
def startedRepeater : McMesh :=
  meshInit (.still 0) ⟨Buf.zero 32, Buf.zero 64, false⟩ configDefaults false none false

/-- One station, under two names. -/
theorem mboxAnswers_spaced_iff_two :
    (∀ pre c, pre <+: [(lit "ON4X", 0), (lit "on4x-7", 9000)] → CallsOrdered (pre ++ [c]) →
        AnswersSpaced (mboxAnswers startedRepeater (pre ++ [c]))) ↔
      Runs.Every rateStep SparesGates (startedRepeater, []) [(lit "ON4X", 0), (lit "on4x-7", 9000)] := by
  apply mboxAnswers_spaced_iff
  · intro k
    rfl
  · unfold CallsOrdered
    decide

/-- Nine stations in nine milliseconds, and the first of them once more. -/
def nineStations : List MboxCall :=
  [(lit "ON1A", 0), (lit "ON2A", 1), (lit "ON3A", 2), (lit "ON4A", 3), (lit "ON5A", 4), (lit "ON6A", 5),
    (lit "ON7A", 6), (lit "ON8A", 7), (lit "ON9A", 8), (lit "ON1A", 9)]

/-- The ninth takes the gate of the first, which is answered again at once. -/
theorem nineStations_notSpaced :
    (∀ k, (startedRepeater.mboxGate k).call = []) ∧ CallsOrdered nineStations ∧
      mboxAnswers startedRepeater nineStations = nineStations ∧
      ¬ AnswersSpaced (mboxAnswers startedRepeater nineStations) := by
  have hall : mboxAnswers startedRepeater nineStations = nineStations := by decide
  refine ⟨fun k => rfl, ?_, hall, ?_⟩
  · unfold CallsOrdered
    decide
  · rw [hall]
    unfold AnswersSpaced SameStation
    decide

end Meshcore
