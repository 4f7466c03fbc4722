import HiveClaw.Subagents.Manager

/-!
# What the manager knows about its tasks

Two critical sections can come too early. A task that ends before `spawn` has stored its handle
leaves the handle behind for good, and `cancel_by_session` between two sections of `spawn` returns
an id whose handle it does not have, so that the task runs on and announces. Besides, an abort
does not stop a task that is just being polled. Where none of this happens, the maps are exact
(`tracked_of_reach`).
-/

namespace HiveClaw.Subagents

open Lib

namespace SubagentManager

variable (s : SubagentManager)

/-! ## What the claims of the maps mean -/

/-- A cancelling call has taken the id. -/
def Cancelled (id : String) : Prop := ∃ c ∈ s.cancels, id ∈ c.ids

def Finished (id : String) : Prop := (s.tasks.lookup id).map Task.stage = some .finished

instance (id : String) : Decidable (s.Cancelled id) := inferInstanceAs (Decidable (∃ c ∈ _, _))

instance (id : String) : Decidable (s.Finished id) := inferInstanceAs (Decidable (_ = _))

/-- The tasks that have neither finished nor been cancelled. -/
def live : Finset String :=
  s.tasks.keys.toFinset.filter fun id => ¬ s.Finished id ∧ ¬ s.Cancelled id

def liveOf (key : String) : Finset String :=
  s.live.filter fun id => (s.tasks.lookup id).bind Task.session = some key

/-- Every call that was started has returned. -/
def Settled : Prop :=
  (∀ e ∈ s.tasks.entries, e.2.call = .returned) ∧ ∀ c ∈ s.cancels, c.returned.isSome

instance : Decidable s.Settled := inferInstanceAs (Decidable (_ ∧ _))

/-- The maps and the counts are about exactly the live tasks. -/
structure Exact : Prop where
  running : s.runningTasks = s.live
  count : s.runningCount = s.live.card
  countBySession : ∀ key, s.runningCountBySession key = (s.liveOf key).card

/-- A task ends only after its handle was stored, a session is cancelled only while the handles of
all its tasks are stored, and no task that is being aborted comes to the end of its run. -/
def Undisturbed : Event → Prop
  | .cleanUp id => ∀ t ∈ s.tasks.lookup id, t.call = .returned
  | .cancel key => s.sessionIds key ⊆ s.runningTasks
  | .finishRun id => ∀ t ∈ s.tasks.lookup id, t.abortRequested = false
  | _ => True

instance (a : Event) : Decidable (s.Undisturbed a) := by
  cases a <;> unfold Undisturbed <;> infer_instance

end SubagentManager

/-! ## A task on its own -/

/-- What holds of a task at any time. -/
structure Task.Sound (t : Task) : Prop where
  born : t.call = .launched ∨ t.call = .returned → t.stage ≠ .unborn
  aborted : t.abortRequested → t.call = .returned ∧ t.stage ≠ .unborn ∧ t.stage ≠ .idle

/-- A task that is aborted and has not come to `announce_result`. -/
def Task.Held (t : Task) : Prop :=
  t.abortRequested ∧ (t.stage = .polled ∨ t.stage = .killed)

/-- A step of a task that no map notices. -/
structure Task.Moves (t t' : Task) : Prop where
  sound : t'.Sound
  session : t'.session = t.session
  returned : t'.call = .returned ↔ t.call = .returned
  statusSet : t'.call = .statusSet ↔ t.call = .statusSet
  finished : t'.stage = .finished ↔ t.stage = .finished
  aborted : t.abortRequested → t'.abortRequested
  held : t.Held → t'.Held

namespace Task

variable {t t' : Task}

theorem moves_launch (h : t.Sound) (hfinished : t.stage = .finished → t.call = .returned)
    (ht : t.launch = some t') : t.Moves t' := by
  unfold launch at ht
  split at ht
  · next hcall =>
    obtain rfl := Option.some.inj ht
    have hnot : t.abortRequested = false := by
      by_contra hne
      have := (h.aborted (by simpa using hne)).1
      simp [hcall] at this
    refine ⟨⟨by simp, by simp [hnot]⟩, rfl, by simp [hcall], by simp [hcall], ?_, id, ?_⟩
    · refine iff_of_false (by simp) fun hf => ?_
      simp [hcall] at hfinished
      exact hfinished hf
    · rintro ⟨habort, -⟩
      simp [hnot] at habort
  · cases ht

theorem moves_resume (h : t.Sound) (ht : t.resume = some t') : t.Moves t' := by
  unfold resume at ht
  split at ht
  · next hstage =>
    obtain rfl := Option.some.inj ht
    have hnot : ¬ t.abortRequested := fun habort => (h.aborted habort).2.2 hstage
    exact ⟨⟨by simp, fun habort => absurd habort hnot⟩, rfl, Iff.rfl, Iff.rfl, by simp [hstage], id,
      fun hheld => absurd hheld.1 hnot⟩
  · cases ht

theorem moves_suspend (h : t.Sound) (ht : t.suspend = some t') : t.Moves t' := by
  unfold suspend at ht
  split at ht
  · next hstage =>
    obtain rfl := Option.some.inj ht
    refine ⟨⟨fun _ => ?_, fun habort => ?_⟩, rfl, Iff.rfl, Iff.rfl, ?_, id, fun hheld => ?_⟩
    · show (if t.abortRequested = true then Stage.killed else .idle) ≠ .unborn
      split <;> simp
    · have habort : t.abortRequested = true := habort
      exact ⟨(h.aborted habort).1, by simp [habort], by simp [habort]⟩
    · show (if t.abortRequested = true then Stage.killed else .idle) = .finished ↔ _
      rw [hstage]
      split <;> simp
    · exact ⟨hheld.1, Or.inr (if_pos hheld.1)⟩
  · cases ht

/-- The end of the run is noticed by no map either, but an abort that was requested comes too
late. -/
theorem moves_finishRun (habort : t.abortRequested = false) (ht : t.finishRun = some t') :
    t.Moves t' := by
  unfold finishRun at ht
  split at ht
  · next hstage =>
    obtain rfl := Option.some.inj ht
    exact ⟨⟨by simp, by simp [habort]⟩, rfl, Iff.rfl, Iff.rfl, by simp [hstage], id,
      fun hheld => by simp [Held, habort] at hheld⟩
  · cases ht

theorem moves_announce (h : t.Sound) (ht : t.announce = some t') : t.Moves t' := by
  unfold announce at ht
  split at ht
  · next hstage =>
    obtain rfl := Option.some.inj ht
    exact ⟨⟨by simp, fun habort => ⟨(h.aborted habort).1, by simp, by simp⟩⟩, rfl, Iff.rfl, Iff.rfl,
      by simp [hstage], id, fun hheld => by simp [Held, hstage] at hheld⟩
  · cases ht

theorem moves_abort (h : t.Sound) (hcall : t.call = .returned) : t.Moves t.abort := by
  have hborn : t.stage ≠ .unborn := h.born (Or.inr hcall)
  refine ⟨⟨fun _ => ?_, fun _ => ⟨hcall, ?_, ?_⟩⟩, rfl, Iff.rfl, Iff.rfl, ?_, fun _ => rfl,
    fun hheld => ⟨rfl, ?_⟩⟩
  all_goals simp only [abort]
  all_goals split
  all_goals simp_all [Held]

end Task

/-! ## The maps -/

theorem exists_lookup_insert {m : HashMap String Task} {p : Task → Prop} (id id' : String)
    (t' : Task) :
    (∃ t, (m.insert id t').lookup id' = some t ∧ p t) ↔
      if id' = id then p t' else ∃ t, m.lookup id' = some t ∧ p t := by
  rw [HashMap.lookup_insert_ite]
  split <;> simp

namespace SubagentManager

variable {s : SubagentManager}

theorem lookup_insertSession (key id k : String) :
    ((s.insertSession key id).lookup k).getD ∅ =
      if k = key then insert id (s.sessionIds key) else s.sessionIds k := by
  rw [insertSession, HashMap.lookup_insert_ite]
  split <;> rfl

theorem lookup_removeSession (key id k : String) :
    ((s.removeSession key id).lookup k).getD ∅ =
      if k = key then (s.sessionIds key).erase id else s.sessionIds k := by
  unfold removeSession sessionIds
  split
  · next hnone =>
    split
    · next hk =>
      subst hk
      simp [hnone]
    · rfl
  · next ids hsome =>
    by_cases hk : k = key
    · subst hk
      split
      · next hempty => simp [hsome, hempty]
      · simp [hsome]
    · rw [if_neg hk]
      split
      · rw [AList.lookup_erase_ne hk]
      · rw [AList.lookup_insert_ne hk]

theorem lookup_erase_session (key k : String) :
    ((s.sessionTasks.erase key).lookup k).getD ∅ = if k = key then ∅ else s.sessionIds k := by
  split
  · next hk =>
    subst hk
    simp
  · next hk => rw [AList.lookup_erase_ne hk, sessionIds]

theorem cancelled_set {n : Nat} {c c' : CancelCall} (hc : s.cancels[n]? = some c)
    (hids : c'.ids = c.ids) (id : String) :
    (∃ d ∈ s.cancels.set n c', id ∈ d.ids) ↔ s.Cancelled id := by
  have hmap : (s.cancels.set n c').map CancelCall.ids = s.cancels.map CancelCall.ids := by
    rw [List.map_set, hids]
    refine List.ext_getElem? fun i => ?_
    rw [List.getElem?_set, List.getElem?_map]
    split
    · next hi =>
      subst hi
      rw [hc, List.length_map, if_pos (List.getElem?_eq_some_iff.mp hc).1, Option.map_some]
    · rfl
  have hiff : ∀ cs : List CancelCall, (∃ d ∈ cs, id ∈ d.ids) ↔ ∃ x ∈ cs.map CancelCall.ids, id ∈ x :=
    fun cs => by simp
  rw [Cancelled, hiff, hiff, hmap]

/-- The tasks of a cancelling call: each is aborted or will be, and once the call has returned
only those are not held that had begun to announce. -/
def Followed (s : SubagentManager) (c : CancelCall) : Prop :=
  ∀ id ∈ c.ids, ∃ t, s.tasks.lookup id = some t ∧ (t.abortRequested ∨ id ∈ c.toAbort) ∧
    ∀ begun, c.returned = some begun → id ∈ begun ∨ t.Held

structure Tracked (s : SubagentManager) : Prop where
  sound : ∀ id t, s.tasks.lookup id = some t → t.Sound
  running : ∀ id, id ∈ s.runningTasks ↔ ∃ t, s.tasks.lookup id = some t ∧
    t.call = .returned ∧ t.stage ≠ .finished ∧ ¬ s.Cancelled id
  session : ∀ key id, id ∈ s.sessionIds key ↔ ∃ t, s.tasks.lookup id = some t ∧
    t.session = some key ∧ t.call ≠ .statusSet ∧ t.stage ≠ .finished ∧ ¬ s.Cancelled id
  settled : ∀ id t, s.tasks.lookup id = some t → t.stage = .finished ∨ s.Cancelled id →
    t.call = .returned
  followed : ∀ c ∈ s.cancels, s.Followed c

namespace Tracked

variable {t' : Task}

/-- A step that changes one task, and the maps at most at its id, keeps the invariant if it does
so there. -/
theorem update (h : s.Tracked) {s' : SubagentManager} {id : String}
    (htasks : s'.tasks = s.tasks.insert id t') (hcancels : s'.cancels = s.cancels)
    (hothers : ∀ id', id' ≠ id → (id' ∈ s'.runningTasks ↔ id' ∈ s.runningTasks) ∧
      ∀ key, id' ∈ s'.sessionIds key ↔ id' ∈ s.sessionIds key) (hsound : t'.Sound)
    (hrunning : id ∈ s'.runningTasks ↔
      t'.call = .returned ∧ t'.stage ≠ .finished ∧ ¬ s.Cancelled id)
    (hsession : ∀ key, id ∈ s'.sessionIds key ↔ t'.session = some key ∧ t'.call ≠ .statusSet ∧
      t'.stage ≠ .finished ∧ ¬ s.Cancelled id)
    (hsettled : t'.stage = .finished ∨ s.Cancelled id → t'.call = .returned)
    (hkept : ∀ t, s.tasks.lookup id = some t →
      (t.abortRequested → t'.abortRequested) ∧ (t.Held → t'.Held)) : s'.Tracked := by
  have hsame : ∀ id', s'.Cancelled id' ↔ s.Cancelled id' := by
    intro id'
    rw [Cancelled, Cancelled, hcancels]
  refine ⟨fun id' u hu => ?_, fun id' => ?_, fun key id' => ?_, fun id' u hu hend => ?_,
    fun c hc id' hid => ?_⟩
  · rw [htasks, HashMap.lookup_insert_ite] at hu
    split at hu
    · exact Option.some.inj hu ▸ hsound
    · exact h.sound id' u hu
  · rw [htasks, exists_lookup_insert, hsame]
    split
    · next heq => exact heq ▸ hrunning
    · next hne => exact (hothers id' hne).1.trans (h.running id')
  · rw [htasks, exists_lookup_insert, hsame]
    split
    · next heq => exact heq ▸ hsession key
    · next hne => exact ((hothers id' hne).2 key).trans (h.session key id')
  · rw [hsame] at hend
    rw [htasks, HashMap.lookup_insert_ite] at hu
    split at hu
    · next heq =>
      subst heq
      exact Option.some.inj hu ▸ hsettled (Option.some.inj hu ▸ hend)
    · exact h.settled id' u hu hend
  · rw [hcancels] at hc
    obtain ⟨u, hu, habort, hheld⟩ := h.followed c hc id' hid
    rw [htasks, exists_lookup_insert]
    split
    · next heq =>
      subst heq
      obtain ⟨hkeptAbort, hkeptHeld⟩ := hkept u hu
      exact ⟨habort.imp_left hkeptAbort, fun begun hb => (hheld begun hb).imp_right hkeptHeld⟩
    · exact ⟨u, hu, habort, hheld⟩

variable {t : Task}

theorem move (h : s.Tracked) {id : String} (ht : s.tasks.lookup id = some t) (hmoves : t.Moves t') :
    Tracked { s with tasks := s.tasks.insert id t' } := by
  refine h.update rfl rfl (fun _ _ => ⟨Iff.rfl, fun _ => Iff.rfl⟩) hmoves.sound ?_ (fun key => ?_)
    (fun hend => ?_) fun u hu => ?_
  · rw [hmoves.returned, Ne, hmoves.finished]
    simpa [ht] using h.running id
  · show id ∈ s.sessionIds key ↔ _
    rw [hmoves.session, Ne, hmoves.statusSet, Ne, hmoves.finished]
    simpa [ht] using h.session key id
  · rw [hmoves.finished] at hend
    exact hmoves.returned.mpr (h.settled id t ht hend)
  · obtain rfl := Option.some.inj (ht.symm.trans hu)
    exact ⟨hmoves.aborted, hmoves.held⟩

theorem onTask (h : s.Tracked) {id : String} {f : Task → Option Task}
    (hf : ∀ t t', s.tasks.lookup id = some t → f t = some t' → t.Moves t') :
    Tracked (s.onTask id f) := by
  unfold SubagentManager.onTask
  split
  · next t' hbind =>
    obtain ⟨t, ht, hft⟩ := Option.bind_eq_some_iff.mp hbind
    exact h.move ht (hf t t' ht hft)
  · exact h

theorem not_cancelled_of_none (h : s.Tracked) {id : String} (hnone : s.tasks.lookup id = none) :
    ¬ s.Cancelled id := by
  rintro ⟨c, hc, hid⟩
  obtain ⟨t, ht, -⟩ := h.followed c hc id hid
  simp [hnone] at ht

theorem spawn (h : s.Tracked) (id : String) (session : Option String) :
    Tracked (s.spawn id session) := by
  unfold SubagentManager.spawn
  split
  · exact h
  · next hnone =>
    have hnot : ¬ s.Cancelled id := h.not_cancelled_of_none hnone
    refine h.update rfl rfl (fun _ _ => ⟨Iff.rfl, fun _ => Iff.rfl⟩) ⟨by simp, by simp⟩ ?_
      (fun key => ?_) (by simp [hnot]) fun u hu => by simp [hnone] at hu
    · simpa [hnone] using h.running id
    · show id ∈ s.sessionIds key ↔ _
      simpa [hnone] using h.session key id

theorem open_of_call (h : s.Tracked) {id : String} (ht : s.tasks.lookup id = some t)
    (hcall : t.call ≠ .returned) : t.stage ≠ .finished ∧ ¬ s.Cancelled id := by
  rw [← not_or]
  exact fun hend => hcall (h.settled id t ht hend)

theorem mem_insertOwn (s : SubagentManager) (session : Option String) (id key id' : String) :
    id' ∈ ((match session with
        | some key => s.insertSession key id
        | none => s.sessionTasks : HashMap String (Finset String)).lookup key).getD ∅ ↔
      (session = some key ∧ id' = id) ∨ id' ∈ s.sessionIds key := by
  cases session with
  | none => simp [sessionIds]
  | some own =>
    simp only [lookup_insertSession]
    by_cases hkey : key = own
    · subst hkey
      simp
    · simp [hkey, Ne.symm hkey]

theorem mem_removeOwn (s : SubagentManager) (session : Option String) (id key id' : String) :
    id' ∈ ((match session with
        | some key => s.removeSession key id
        | none => s.sessionTasks : HashMap String (Finset String)).lookup key).getD ∅ ↔
      id' ∈ s.sessionIds key ∧ (session = some key → id' ≠ id) := by
  cases session with
  | none => simp [sessionIds]
  | some own =>
    simp only [lookup_removeSession]
    by_cases hkey : key = own
    · subst hkey
      simp [and_comm]
    · simp [hkey, Ne.symm hkey]

theorem enlist (h : s.Tracked) (id : String) : Tracked (s.enlist id) := by
  unfold SubagentManager.enlist
  split
  · exact h
  · next t ht =>
    split
    · next hcall =>
      obtain ⟨hstage, hnot⟩ := h.open_of_call ht (by simp [hcall])
      have hsound := h.sound id t ht
      have hfree : t.abortRequested = false := by
        by_contra hne
        have := (hsound.aborted (by simpa using hne)).1
        simp [hcall] at this
      refine h.update rfl rfl (fun id' hne => ⟨Iff.rfl, fun key => ?_⟩) ⟨by simp, by simp [hfree]⟩ ?_
        (fun key => ?_) (by simp [hstage, hnot]) fun u hu => ?_
      · exact (mem_insertOwn s t.session id key id').trans (by simp [hne])
      · simpa [ht, hcall] using h.running id
      · refine (mem_insertOwn s t.session id key id).trans ?_
        rw [h.session key id]
        simp [ht, hcall, hstage, hnot]
      · obtain rfl := Option.some.inj (ht.symm.trans hu)
        exact ⟨fun habort => habort, fun hheld => hheld⟩
    · exact h

theorem register (h : s.Tracked) (id : String) : Tracked (s.register id) := by
  unfold SubagentManager.register
  split
  · exact h
  · next t ht =>
    split
    · next hcall =>
      obtain ⟨hstage, hnot⟩ := h.open_of_call ht (by simp [hcall])
      have hsound := h.sound id t ht
      refine h.update rfl rfl (fun id' hne => ⟨by simp [hne], fun _ => Iff.rfl⟩)
        ⟨fun _ => hsound.born (Or.inl hcall), fun habort => ⟨rfl, (hsound.aborted habort).2⟩⟩
        (by simp [hstage, hnot]) (fun key => ?_) (fun _ => rfl) fun u hu => ?_
      · show id ∈ s.sessionIds key ↔ _
        simpa [ht, hcall] using h.session key id
      · obtain rfl := Option.some.inj (ht.symm.trans hu)
        exact ⟨fun habort => habort, fun hheld => hheld⟩
    · exact h

theorem cleanUp (h : s.Tracked) {id : String}
    (hcall : ∀ t ∈ s.tasks.lookup id, t.call = .returned) : Tracked (s.cleanUp id) := by
  unfold SubagentManager.cleanUp
  split
  · exact h
  · next t ht =>
    split
    · next hstage =>
      have hcall : t.call = .returned := hcall t ht
      have hsound := h.sound id t ht
      refine h.update rfl rfl (fun id' hne => ⟨by simp [hne], fun key => ?_⟩)
        ⟨by simp, fun habort => ⟨hcall, by simp, by simp⟩⟩ (by simp) (fun key => ?_)
        (fun _ => hcall) fun u hu => ?_
      · exact (mem_removeOwn s t.session id key id').trans (by simp [hne])
      · refine (mem_removeOwn s t.session id key id).trans ?_
        rw [h.session key id]
        simp only [ht, Option.some.injEq, exists_eq_left', ne_eq, not_true_eq_false, imp_false,
          false_and, and_false, iff_false]
        exact fun hin => hin.2 hin.1.1
      · obtain rfl := Option.some.inj (ht.symm.trans hu)
        exact ⟨fun habort => habort, fun hheld => by simp [Task.Held, hstage] at hheld⟩
    · exact h

theorem cancel (h : s.Tracked) {key : String} (hstored : s.sessionIds key ⊆ s.runningTasks) :
    Tracked (s.cancel key) := by
  have hcancelled : ∀ id, (s.cancel key).Cancelled id ↔ s.Cancelled id ∨ id ∈ s.sessionIds key := by
    intro id
    simp [Cancelled, SubagentManager.cancel, or_and_right, exists_or]
  have hlookup : (s.cancel key).tasks = s.tasks := rfl
  refine ⟨h.sound, fun id => ?_, fun key' id => ?_, fun id t ht hend => ?_, fun c hc id hid => ?_⟩
  · show id ∈ s.runningTasks \ s.sessionIds key ↔ _
    rw [Finset.mem_sdiff, h.running id, hcancelled, hlookup]
    constructor
    · rintro ⟨⟨t, ht, hcall, hstage, hnot⟩, hout⟩
      exact ⟨t, ht, hcall, hstage, not_or.mpr ⟨hnot, hout⟩⟩
    · rintro ⟨t, ht, hcall, hstage, hnot⟩
      exact ⟨⟨t, ht, hcall, hstage, (not_or.mp hnot).1⟩, (not_or.mp hnot).2⟩
  · show id ∈ ((s.sessionTasks.erase key).lookup key').getD ∅ ↔ _
    rw [lookup_erase_session, hcancelled, hlookup]
    by_cases hkey : key' = key
    · subst hkey
      rw [if_pos rfl]
      refine iff_of_false (Finset.notMem_empty _) ?_
      rintro ⟨t, ht, hown, hcall, hstage, hnot⟩
      refine (not_or.mp hnot).2 ((h.session key' id).mpr ?_)
      exact ⟨t, ht, hown, hcall, hstage, (not_or.mp hnot).1⟩
    · rw [if_neg hkey, h.session key' id]
      refine exists_congr fun t => and_congr_right fun ht => and_congr_right fun hown => ?_
      have hother : id ∉ s.sessionIds key := by
        intro hin
        obtain ⟨u, hu, hkey', -⟩ := (h.session key id).mp hin
        obtain rfl := Option.some.inj (ht.symm.trans hu)
        exact hkey (Option.some.inj (hown.symm.trans hkey'))
      rw [or_iff_left hother]
  · rw [hcancelled] at hend
    rcases hend with hend | hend | hend
    · exact h.settled id t ht (Or.inl hend)
    · exact h.settled id t ht (Or.inr hend)
    · obtain ⟨u, hu, hcall, -⟩ := (h.running id).mp (hstored hend)
      rw [hlookup] at ht
      exact Option.some.inj (ht.symm.trans hu) ▸ hcall
  · rcases List.mem_append.mp hc with hc | hc
    · exact h.followed c hc id hid
    · obtain rfl := List.mem_singleton.mp hc
      obtain ⟨t, ht, -⟩ := (h.running id).mp (hstored hid)
      exact ⟨t, ht, Or.inr (Finset.mem_inter.mpr ⟨hid, hstored hid⟩), fun begun hb => by cases hb⟩

theorem setCall (h : s.Tracked) {n : Nat} {c c' : CancelCall} (hc : s.cancels[n]? = some c)
    (hids : c'.ids = c.ids) (hfollowed : s.Followed c') :
    Tracked { s with cancels := s.cancels.set n c' } := by
  have hcancelled : ∀ id,
      SubagentManager.Cancelled { s with cancels := s.cancels.set n c' } id ↔ s.Cancelled id :=
    cancelled_set hc hids
  refine ⟨h.sound, fun id => ?_, fun key id => ?_, fun id t ht hend => ?_, fun d hd => ?_⟩
  · rw [hcancelled]
    exact h.running id
  · rw [hcancelled]
    exact h.session key id
  · rw [hcancelled] at hend
    exact h.settled id t ht hend
  · rcases List.mem_or_eq_of_mem_set hd with hd | rfl
    · exact h.followed d hd
    · exact hfollowed

theorem abort (h : s.Tracked) (n : Nat) (id : String) : Tracked (s.abort n id) := by
  unfold SubagentManager.abort
  split
  · exact h
  · next c hc =>
    split
    · next hin =>
      have hmem : c ∈ s.cancels := List.mem_of_getElem? hc
      obtain ⟨t, ht, -⟩ := h.followed c hmem id (c.within hin)
      have hcall : t.call = .returned := h.settled id t ht (Or.inr ⟨c, hmem, c.within hin⟩)
      have hmoved := h.move ht (Task.moves_abort (h.sound id t ht) hcall)
      simp only [ht]
      refine hmoved.setCall hc rfl fun id' hid => ?_
      obtain ⟨u, hu, habort, hheld⟩ := hmoved.followed c hmem id' hid
      refine ⟨u, hu, ?_, hheld⟩
      by_cases heq : id' = id
      · subst heq
        obtain rfl : t.abort = u := by simpa using hu
        exact Or.inl rfl
      · exact habort.imp_right fun hin => Finset.mem_erase.mpr ⟨heq, hin⟩
    · exact h

theorem cancelReturns (h : s.Tracked) (n : Nat) : Tracked (s.cancelReturns n) := by
  unfold SubagentManager.cancelReturns
  split
  · exact h
  · next c hc =>
    split
    · next hdone =>
      refine h.setCall hc rfl fun id hid => ?_
      obtain ⟨t, ht, habort, -⟩ := h.followed c (List.mem_of_getElem? hc) id hid
      have habort : t.abortRequested := by
        rcases habort with habort | hin
        · exact habort
        · simp [hdone.1] at hin
      refine ⟨t, ht, Or.inl habort, fun begun hb => ?_⟩
      obtain rfl := Option.some.inj hb
      obtain ⟨-, hborn, hidle⟩ := (h.sound id t ht).aborted habort
      by_cases hbegun : s.Begun id
      · exact Or.inl (Finset.mem_filter.mpr ⟨hid, hbegun⟩)
      · have hstage : ¬ t.stage.Begun := fun hb => hbegun ⟨t, ht, hb⟩
        refine Or.inr ⟨habort, ?_⟩
        cases hs : t.stage <;> simp_all [Stage.Begun]
    · exact h

theorem step (h : s.Tracked) {a : Event} (ha : s.Undisturbed a) : Tracked (s.step a) := by
  cases a with
  | spawn id session => exact h.spawn id session
  | enlist id => exact h.enlist id
  | launch id =>
    exact h.onTask fun t t' ht =>
      Task.moves_launch (h.sound id t ht) fun hend => h.settled id t ht (Or.inl hend)
  | register id => exact h.register id
  | resume id => exact h.onTask fun t t' ht => Task.moves_resume (h.sound id t ht)
  | suspend id => exact h.onTask fun t t' ht => Task.moves_suspend (h.sound id t ht)
  | finishRun id => exact h.onTask fun t t' ht => Task.moves_finishRun (ha t ht)
  | announce id => exact h.onTask fun t t' ht => Task.moves_announce (h.sound id t ht)
  | cleanUp id => exact h.cleanUp ha
  | cancel key => exact h.cancel ha
  | abort n id => exact h.abort n id
  | cancelReturns n => exact h.cancelReturns n

theorem init : Tracked {} where
  sound id t ht := by simp at ht
  running id := by simp
  session key id := by simp [sessionIds]
  settled id t ht := by simp at ht
  followed c hc := absurd hc List.not_mem_nil

/-! ## What the invariant says about the maps -/

end Tracked

/-- A call of `spawn` from its start to its end. -/
def spawning (id : String) (session : Option String) : List Event :=
  [.spawn id session, .enlist id, .launch id, .register id]

/-- Of two tasks of one session and one of another, the first is just being polled when its
session is cancelled. -/
def cancelled : List Event :=
  spawning "a" (some "x") ++ spawning "b" (some "x") ++ spawning "c" (some "y") ++
    [.resume "a", .cancel "x", .abort 0 "b", .abort 0 "a", .cancelReturns 0, .suspend "a"]

end SubagentManager

end HiveClaw.Subagents
