import HiveClaw.Plugins.Race

/-!
# One deletes, one binds

A `soft_delete` and a `create_custom` of the same plugin, with any number of
requests on other plugins around them. If the database answers both, exactly one
of them succeeds: as long as neither has committed, the plugin is in use and has no
function, so neither is refused for the other's sake (`Score`); the first to commit
decides.

Requests never wait for each other in a circle (`some_request_moves`): whoever
waits for a lock waits for a request that holds it, that one waits at most for an
identifier in an open transaction, and the owner of that waits for nothing.
-/

namespace HiveClaw.PluginBinding

open Lib

/-! ## Statements that do not fail -/

namespace Phase

/-- The server has failed the request. -/
def failed : Phase → Bool
  | .rollingBack _ _ b => b
  | .settled .faulted => true
  | _ => false

/-- The request has been turned down. -/
def turnedDown : Phase → Bool
  | .rollingBack _ _ b => !b
  | .settled .refused => true
  | _ => false

/-- The request has committed a function. -/
def bound : Phase → Bool
  | .committed _ | .settled (.created _) => true
  | _ => false

end Phase

section Calm

variable {mysql : Mysql} {n : Nat} {q q' : Phase} {l : BindingStmt} {i : BindingInput}
  {s s' : BindingStore} {p : Int} {req : CreateMeta}

/-- A statement of `soft_delete` that the server answers: the commit, or one that
leaves the tables alone. -/
theorem advance_softDelete (hfault : i.fault = none)
    (h : q.advance mysql n (.softDelete p) l i s = some (q', s')) :
    ((∃ t, q = .marked t) ∧ q' = .settled .deleted) ∨
      (s'.data = s.data ∧ q' ≠ .settled .deleted ∧ (q'.failed = true → q.failed = true) ∧
        (q'.turnedDown = true →
          q.turnedDown = true ∨ ¬ s.data.Active p ∨ ¬ s.data.Unreferenced p)) := by
  unfold Phase.advance at h
  split at h
  · -- `BEGIN`
    obtain ⟨rfl, rfl⟩ := Prod.mk.inj (Option.some.inj h)
    rw [if_pos hfault]
    exact Or.inr ⟨rfl, nofun, nofun, nofun⟩
  · -- the locking read
    split at h
    case isFalse => cases h
    case isTrue hsame =>
      obtain ⟨rfl, rfl, rfl⟩ := hsame
      rw [hfault] at h
      split at h
      · next hsome => cases hsome
      · next hnone =>
        obtain ⟨rfl, rfl⟩ := Prod.mk.inj (Option.some.inj h)
        refine Or.inr ⟨rfl, nofun, nofun, fun _ => Or.inr (Or.inl ?_)⟩
        rintro ⟨row, hrow, -⟩
        cases hnone.symm.trans hrow
      · next row _ hrow =>
        obtain ⟨rfl, rfl⟩ := Prod.mk.inj (Option.some.inj h)
        by_cases hactive : row.deletedAt = none
        · rw [if_pos hactive]
          exact Or.inr ⟨rfl, nofun, nofun, nofun⟩
        · rw [if_neg hactive]
          refine Or.inr ⟨rfl, nofun, nofun, fun _ => Or.inr (Or.inl ?_)⟩
          rintro ⟨row', hrow', hnone⟩
          rw [Option.some.inj (hrow.symm.trans hrow')] at hactive
          exact hactive hnone
  · -- the count
    next hr =>
    cases hr
    rw [if_neg (not_not.mpr hfault)] at h
    split at h
    · obtain ⟨rfl, rfl⟩ := Prod.mk.inj (Option.some.inj h)
      exact Or.inr ⟨rfl, nofun, nofun, nofun⟩
    · next hreferenced =>
      obtain ⟨rfl, rfl⟩ := Prod.mk.inj (Option.some.inj h)
      refine Or.inr ⟨rfl, nofun, nofun, fun _ => Or.inr (Or.inr ?_)⟩
      exact fun hfree => hreferenced (BindingTables.references_eq_zero.mpr hfree)
  · -- the mark
    rw [if_neg (not_not.mpr hfault)] at h
    obtain ⟨rfl, rfl⟩ := Prod.mk.inj (Option.some.inj h)
    exact Or.inr ⟨rfl, nofun, nofun, nofun⟩
  · -- the commit
    rw [if_pos hfault] at h
    obtain ⟨rfl, rfl⟩ := Prod.mk.inj (Option.some.inj h)
    exact Or.inl ⟨⟨_, rfl⟩, rfl⟩
  · next hr => cases hr
  · next hr => cases hr
  · next hr => cases hr
  · obtain ⟨rfl, rfl⟩ := Prod.mk.inj (Option.some.inj h)
    refine Or.inr ⟨rfl, ?_, ?_, ?_⟩
    · split <;> nofun
    · split
      · exact fun _ => ‹_›
      · nofun
    · split
      · nofun
      · exact fun _ => Or.inl (by simp_all [Phase.turnedDown])
  · next hr => cases hr
  · cases h

/-- A statement of `create_custom` that the server answers: the commit, the answer,
or one that leaves the plugins and functions alone. -/
theorem advance_createCustom (hfault : i.fault = none)
    (h : q.advance mysql n (.createCustom req) l i s = some (q', s')) :
    (∃ f tags, q = .inserted f tags ∧ q' = .committed f) ∨
      (∃ f, q = .committed f ∧ s' = s ∧
        ((s.data.function? f.id).isSome = true → q' = .settled (.created f))) ∨
      (s'.data.plugins = s.data.plugins ∧ s'.data.functions = s.data.functions ∧
        q.bound = false ∧ q'.bound = false ∧ (q'.failed = true → q.failed = true)) := by
  unfold Phase.advance at h
  split at h
  · obtain ⟨rfl, rfl⟩ := Prod.mk.inj (Option.some.inj h)
    rw [if_pos hfault]
    exact Or.inr (Or.inr ⟨rfl, rfl, rfl, rfl, nofun⟩)
  · split at h
    case isFalse => cases h
    case isTrue hsame =>
      rw [hfault] at h
      split at h
      · next hsome => cases hsome
      · obtain ⟨rfl, rfl⟩ := Prod.mk.inj (Option.some.inj h)
        exact Or.inr (Or.inr ⟨rfl, rfl, rfl, rfl, nofun⟩)
      · obtain ⟨rfl, rfl⟩ := Prod.mk.inj (Option.some.inj h)
        refine Or.inr (Or.inr ⟨rfl, rfl, rfl, ?_, ?_⟩)
        · split <;> rfl
        · split <;> nofun
  · next hr => cases hr
  · next hr => cases hr
  · next hr => cases hr
  · split at h
    case isFalse => cases h
    case isTrue hsame =>
      rw [hfault] at h
      split at h
      · next hsome => cases hsome
      · obtain ⟨rfl, rfl⟩ := Prod.mk.inj (Option.some.inj h)
        exact Or.inr (Or.inr ⟨rfl, rfl, rfl, rfl, nofun⟩)
      · split at h
        · obtain ⟨rfl, rfl⟩ := Prod.mk.inj (Option.some.inj h)
          exact Or.inr (Or.inr ⟨rfl, rfl, rfl, rfl, nofun⟩)
        · obtain ⟨rfl, rfl⟩ := Prod.mk.inj (Option.some.inj h)
          exact Or.inr (Or.inr ⟨rfl, rfl, rfl, rfl, nofun⟩)
  · rw [if_neg (not_not.mpr hfault)] at h
    split at h
    · obtain ⟨rfl, rfl⟩ := Prod.mk.inj (Option.some.inj h)
      exact Or.inr (Or.inr ⟨rfl, rfl, rfl, rfl, nofun⟩)
    · obtain ⟨rfl, rfl⟩ := Prod.mk.inj (Option.some.inj h)
      exact Or.inr (Or.inr ⟨rfl, rfl, rfl, rfl, nofun⟩)
  · rw [if_pos hfault] at h
    obtain ⟨rfl, rfl⟩ := Prod.mk.inj (Option.some.inj h)
    exact Or.inl ⟨_, _, rfl, rfl⟩
  · obtain ⟨rfl, rfl⟩ := Prod.mk.inj (Option.some.inj h)
    refine Or.inr (Or.inr ⟨rfl, rfl, rfl, ?_, ?_⟩)
    · split <;> rfl
    · split
      · exact fun _ => ‹_›
      · nofun
  · obtain ⟨rfl, rfl⟩ := Prod.mk.inj (Option.some.inj h)
    exact Or.inr (Or.inl ⟨_, rfl, rfl, fun hrow => if_pos ⟨hfault, hrow⟩⟩)
  · cases h

end Calm

/-! ## The two requests -/

/-- The `i`-th request deletes plugin `p`, the `j`-th binds a function to it, the
others are about other plugins. The server answers the two, and neither crashes. -/
def Duel (p : Int) (i j : Nat) (c : BindingPool) : Act BindingRequest BindingInput Empty → Prop
  | .start r =>
    (c.threads.length = i → r = .softDelete p) ∧
      (c.threads.length = j → ∃ req, r = .createCustom req ∧ req.pluginId = p) ∧
      (c.threads.length ≠ i → c.threads.length ≠ j → r.target ≠ p)
  | .move k t => k = i ∨ k = j → t.fault = none
  | .crash k => k ≠ i ∧ k ≠ j
  | .outside _ => True

/-- Who has committed: nobody, and then nobody is turned down for it; or the
deletion; or the function. -/
def Standing (mysql : Mysql) (p : Int) (i j : Nat) (c : BindingPool) : Prop :=
  (c.store.data.Active p ∧ c.store.data.Unreferenced p ∧ phaseAt mysql c i ≠ .settled .deleted ∧
      (phaseAt mysql c i).turnedDown = false ∧ (phaseAt mysql c j).bound = false) ∨
    (phaseAt mysql c i = .settled .deleted ∧ (phaseAt mysql c j).bound = false) ∨
    (phaseAt mysql c i ≠ .settled .deleted ∧ (phaseAt mysql c j).bound = true)

structure Score (mysql : Mysql) (p : Int) (i j : Nat) (c : BindingPool) : Prop where
  deleter : ∀ th : BindingThread, c.threads[i]? = some th →
    th.req = .softDelete p ∧ th.crashed = false
  binder : ∀ th : BindingThread, c.threads[j]? = some th →
    (∃ req, th.req = .createCustom req ∧ req.pluginId = p) ∧ th.crashed = false
  others : ∀ k (th : BindingThread), k ≠ i → k ≠ j → c.threads[k]? = some th → th.req.target ≠ p
  answered : ∀ k, k = i ∨ k = j → (phaseAt mysql c k).failed = false
  standing : Standing mysql p i j c

section Score

variable {mysql : Mysql} {p : Int} {i j k : Nat} {c : BindingPool} {th th' : BindingThread}
  {s : BindingStore}

theorem Score.set (hS : Score mysql p i j c) (hth : c.threads[k]? = some th)
    (hreq : th'.req = th.req) (hcrashed : k = i ∨ k = j → th'.crashed = false)
    (hanswered : k = i ∨ k = j → (phaseOf mysql th').failed = false)
    (hstanding : Standing mysql p i j { threads := c.threads.set k th', store := s }) :
    Score mysql p i j { threads := c.threads.set k th', store := s } := by
  obtain ⟨hlt, -⟩ := List.getElem?_eq_some_iff.mp hth
  have hget : ∀ m (th₁ : BindingThread), (c.threads.set k th')[m]? = some th₁ →
      (m = k ∧ th₁ = th') ∨ (m ≠ k ∧ c.threads[m]? = some th₁) := by
    intro m th₁ hth₁
    by_cases hm : m = k
    · subst hm
      rw [List.getElem?_set_self hlt] at hth₁
      exact Or.inl ⟨rfl, (Option.some.inj hth₁).symm⟩
    · rw [List.getElem?_set_ne (Ne.symm hm)] at hth₁
      exact Or.inr ⟨hm, hth₁⟩
  constructor
  · intro th₁ hth₁
    rcases hget i th₁ hth₁ with ⟨hik, rfl⟩ | ⟨-, hold⟩
    · subst hik
      rw [hreq]
      exact ⟨(hS.deleter th hth).1, hcrashed (Or.inl rfl)⟩
    · exact hS.deleter th₁ hold
  · intro th₁ hth₁
    rcases hget j th₁ hth₁ with ⟨hjk, rfl⟩ | ⟨-, hold⟩
    · subst hjk
      rw [hreq]
      exact ⟨(hS.binder th hth).1, hcrashed (Or.inr rfl)⟩
    · exact hS.binder th₁ hold
  · intro m th₁ hmi hmj hth₁
    rcases hget m th₁ hth₁ with ⟨hmk, rfl⟩ | ⟨-, hold⟩
    · subst hmk
      rw [hreq]
      exact hS.others m th hmi hmj hth
    · exact hS.others m th₁ hmi hmj hold
  · intro m hm
    by_cases hmk : m = k
    · subst hmk
      rw [phaseAt_set_self hth]
      exact hanswered hm
    · rw [phaseAt_set_ne hmk]
      exact hS.answered m hm
  · exact hstanding

theorem Standing.of_other (h : Standing mysql p i j c) (hki : k ≠ i) (hkj : k ≠ j)
    (hactive : c.store.data.Active p → s.data.Active p)
    (hfree : c.store.data.Unreferenced p → s.data.Unreferenced p) :
    Standing mysql p i j { threads := c.threads.set k th', store := s } := by
  unfold Standing
  rw [phaseAt_set_ne (Ne.symm hki), phaseAt_set_ne (Ne.symm hkj)]
  rcases h with ⟨ha, hf, hrest⟩ | hrest
  · exact Or.inl ⟨hactive ha, hfree hf, hrest⟩
  · exact Or.inr hrest

theorem plugin_of_other (hL : Ledger mysql c) (hth : c.threads[k]? = some th)
    (hother : th.req.target ≠ p)
    (hkind : Kind k th.req (phaseOf mysql th) (phaseOf mysql th') c.store s) :
    (c.store.data.Active p → s.data.Active p) ∧
      (c.store.data.Unreferenced p → s.data.Unreferenced p) := by
  have hwrites := hL.writes k
  have hknows := hL.knows k
  rw [phaseAt_eq hth, targetAt_eq hth] at hwrites hknows
  -- in the eyes of a request that knows both, nothing has happened
  have hsame : s.data.plugins = c.store.data.plugins → s.data.functions = c.store.data.functions →
      (c.store.data.Active p → s.data.Active p) ∧
        (c.store.data.Unreferenced p → s.data.Unreferenced p) := by
    intro hplugins hfunctions
    refine ⟨fun h => ?_, fun h => ?_⟩
    · have hlocked : (Phase.locked .shared).Knows p c.store.data := h
      exact hlocked.of_tables hplugins hfunctions
    · intro f hf
      rw [hfunctions] at hf
      exact h f hf
  cases hkind with
  | read hlocks' hwrites' hknows' hs =>
    obtain ⟨-, -, hplugins, hfunctions⟩ := burnId_cases hs
    exact hsame hplugins hfunctions
  | lock mode hgrants hnone hlocks' hwrites' hknows' hs =>
    subst hs
    exact ⟨id, id⟩
  | write w hlocks' hwrites' hknows' hs =>
    rcases hs with hs | hs
    · subst hs
      exact ⟨id, id⟩
    · subst hs
      exact hsame rfl rfl
  | commitDelete id hr t hq hq' hs =>
    subst hs
    rw [hq] at hwrites
    rw [show (c.store.commit BindingTables.apply k).data =
      c.store.data.softDelete th.req.target t from data_commit hwrites]
    exact ⟨fun h => h.softDelete hother, fun h => h⟩
  | commitInsert req hr f tags hq hq' hs =>
    subst hs
    rw [hq] at hwrites hknows
    obtain ⟨hplugins, hfunctions⟩ := data_inserted c.store.data f tags th.req.target
    rw [← data_commit hwrites] at hplugins hfunctions
    refine ⟨fun h => ?_, fun h => ?_⟩
    · have hlocked : (Phase.locked .shared).Knows p c.store.data := h
      exact (hlocked.insertFunction (f := f) (by simp [Phase.locks])).of_tables hplugins hfunctions
    · intro g hg
      rw [hfunctions] at hg
      rcases List.mem_append.mp hg with hold | hnew
      · exact h g hold
      · rw [List.mem_singleton.mp hnew, hknows.2]
        exact fun hp => hother (Option.some.inj hp)
  | rollback hq' hs =>
    subst hs
    exact ⟨id, id⟩

theorem Ledger.bound (hL : Ledger mysql c) (h : (phaseAt mysql c k).bound = true) :
    ¬ c.store.data.Unreferenced (targetAt c k) := by
  have hknows := hL.knows k
  intro hfree
  cases hq : phaseAt mysql c k with
  | committed f =>
    rw [hq] at hknows
    exact hfree f hknows.1 hknows.2
  | settled o =>
    cases o with
    | created f =>
      rw [hq] at hknows
      exact hfree f hknows.1 hknows.2
    | deleted => rw [hq] at h; cases h
    | refused => rw [hq] at h; cases h
    | faulted => rw [hq] at h; cases h
  | _ => rw [hq] at h; cases h

variable {r : BindingRequest} {l : BindingStmt} {t : BindingInput}

theorem advance_settled {n : Nat} {o : Outcome} {s₀ : BindingStore} :
    (Phase.settled o).advance mysql n r l t s₀ = none := by
  unfold Phase.advance
  split <;> first | rfl | contradiction

theorem Score.targetAt_binder (hS : Score mysql p i j c) (hth : c.threads[j]? = some th) :
    targetAt c j = p := by
  obtain ⟨⟨req, hreq, hid⟩, -⟩ := hS.binder th hth
  rw [targetAt_eq hth, hreq]
  exact hid

theorem exists_of_bound (h : (phaseAt mysql c k).bound = true) :
    ∃ th, c.threads[k]? = some th := by
  cases hth : c.threads[k]? with
  | some th => exact ⟨th, rfl⟩
  | none =>
    rw [phaseAt, hth] at h
    cases h

theorem Score.moveDeleter (hij : i ≠ j) (hL : Ledger mysql c) (hS : Score mysql p i j c)
    (hth : c.threads[i]? = some th) (hreq : th'.req = th.req) (hcrashed : th'.crashed = false)
    (hfault : t.fault = none) (hadvance : (phaseOf mysql th).advance mysql i th.req l t c.store =
      some (phaseOf mysql th', s)) :
    Score mysql p i j { threads := c.threads.set i th', store := s } := by
  rw [(hS.deleter th hth).1] at hadvance
  have hcases := advance_softDelete hfault hadvance
  have hq : phaseAt mysql c i = phaseOf mysql th := phaseAt_eq hth
  have hunfailed := hS.answered i (Or.inl rfl)
  rw [hq] at hunfailed
  refine hS.set hth hreq (fun _ => hcrashed) (fun _ => ?_) ?_
  · rcases hcases with ⟨-, hq'⟩ | ⟨-, -, hfailed, -⟩
    · rw [hq']
      rfl
    · cases hq' : (phaseOf mysql th').failed with
      | false => rfl
      | true => cases hunfailed.symm.trans (hfailed hq')
  · unfold Standing
    rw [phaseAt_set_self hth, phaseAt_set_ne (Ne.symm hij)]
    have hstanding := hS.standing
    unfold Standing at hstanding
    rw [hq] at hstanding
    rcases hcases with ⟨⟨t, hmarked⟩, hq'⟩ | ⟨hdata, hne, -, hturned⟩
    · rcases hstanding with ⟨-, -, -, -, hbound⟩ | ⟨hdeleted, -⟩ | ⟨-, hbound⟩
      · exact Or.inr (Or.inl ⟨hq', hbound⟩)
      · cases hmarked.symm.trans hdeleted
      · -- the deletion has seen no function, but there is one
        have hknows := hL.knows i
        rw [hq, hmarked, targetAt_eq hth, (hS.deleter th hth).1] at hknows
        obtain ⟨thj, hthj⟩ := exists_of_bound hbound
        refine absurd ?_ (hL.bound hbound)
        rw [hS.targetAt_binder hthj]
        exact hknows.2
    · rcases hstanding with ⟨hactive, hfree, -, hup, hbound⟩ | ⟨hdeleted, -⟩ | ⟨-, hbound⟩
      · refine Or.inl ⟨hdata ▸ hactive, hdata ▸ hfree, hne, ?_, hbound⟩
        cases hq' : (phaseOf mysql th').turnedDown with
        | false => rfl
        | true =>
          rcases hturned hq' with hdown | hgone | hreferenced
          · cases hup.symm.trans hdown
          · exact absurd hactive hgone
          · exact absurd hfree hreferenced
      · rw [hdeleted, advance_settled] at hadvance
        cases hadvance
      · exact Or.inr (Or.inr ⟨hne, hbound⟩)

theorem Score.moveBinder (hij : i ≠ j) (hL : Ledger mysql c) (hS : Score mysql p i j c)
    (hth : c.threads[j]? = some th) (hreq : th'.req = th.req) (hcrashed : th'.crashed = false)
    (hfault : t.fault = none) (hadvance : (phaseOf mysql th).advance mysql j th.req l t c.store =
      some (phaseOf mysql th', s)) :
    Score mysql p i j { threads := c.threads.set j th', store := s } := by
  obtain ⟨⟨req, hr, -⟩, -⟩ := hS.binder th hth
  rw [hr] at hadvance
  have hcases := advance_createCustom hfault hadvance
  have hq : phaseAt mysql c j = phaseOf mysql th := phaseAt_eq hth
  have hunfailed := hS.answered j (Or.inr rfl)
  have hknows := hL.knows j
  have hstanding := hS.standing
  unfold Standing at hstanding
  rw [hq] at hunfailed hknows hstanding
  rw [hS.targetAt_binder hth] at hknows
  refine hS.set hth hreq (fun _ => hcrashed) (fun _ => ?_) ?_
  · rcases hcases with ⟨f, tags, -, hq'⟩ | ⟨f, hcommitted, -, hrow⟩ | ⟨-, -, -, -, hfailed⟩
    · rw [hq']
      rfl
    · rw [hcommitted] at hknows
      have hsome : (c.store.data.function? f.id).isSome = true :=
        List.find?_isSome.mpr ⟨f, hknows.1, decide_eq_true rfl⟩
      rw [hrow hsome]
      rfl
    · cases hq' : (phaseOf mysql th').failed with
      | false => rfl
      | true => cases hunfailed.symm.trans (hfailed hq')
  · unfold Standing
    rw [phaseAt_set_self hth, phaseAt_set_ne hij]
    rcases hcases with ⟨f, tags, hinserted, hq'⟩ | ⟨f, hcommitted, hs, hrow⟩ |
      ⟨hplugins, hfunctions, hunbound, hq', -⟩
    · rw [hinserted] at hstanding hknows
      rcases hstanding with ⟨-, -, hne, -, -⟩ | ⟨hdeleted, -⟩ | ⟨-, hbound⟩
      · exact Or.inr (Or.inr ⟨hne, by rw [hq']; rfl⟩)
      · -- the plugin is in use, but it has been deleted
        have hgone := hL.knows i
        rw [hdeleted] at hgone
        cases hthi : c.threads[i]? with
        | none =>
          rw [phaseAt, hthi] at hdeleted
          cases hdeleted
        | some thi =>
          rw [targetAt_eq hthi, (hS.deleter thi hthi).1] at hgone
          exact absurd hgone hknows.1.not_deleted
      · cases hbound
    · rw [hcommitted] at hstanding hknows
      have hsome : (c.store.data.function? f.id).isSome = true :=
        List.find?_isSome.mpr ⟨f, hknows.1, decide_eq_true rfl⟩
      rcases hstanding with ⟨-, -, -, -, hbound⟩ | ⟨-, hbound⟩ | ⟨hne, -⟩
      · cases hbound
      · cases hbound
      · exact Or.inr (Or.inr ⟨hne, by rw [hrow hsome]; rfl⟩)
    · rcases hstanding with ⟨hactive, hfree, hne, hup, -⟩ | ⟨hdeleted, -⟩ | ⟨-, hbound⟩
      · have hcleared : Phase.cleared.Knows p c.store.data := ⟨hactive, hfree⟩
        obtain ⟨hactive', hfree'⟩ := hcleared.of_tables hplugins hfunctions
        exact Or.inl ⟨hactive', hfree', hne, hup, hq'⟩
      · exact Or.inr (Or.inl ⟨hdeleted, hq'⟩)
      · cases hunbound.symm.trans hbound

theorem Score.start (hS : Score mysql p i j c) (hidle : phaseOf mysql th = .idle)
    (hreq : th.req = r) (hlive : th.crashed = false) (hduel : Duel p i j c (.start r)) :
    Score mysql p i j { c with threads := c.threads ++ [th] } := by
  obtain ⟨hi, hj, hothers⟩ := hduel
  have hget : ∀ k (th₁ : BindingThread), (c.threads ++ [th])[k]? = some th₁ →
      c.threads[k]? = some th₁ ∨ (c.threads.length = k ∧ th₁ = th) := by
    intro k th₁ hth₁
    rcases Nat.lt_or_ge k c.threads.length with hlt | hge
    · rw [List.getElem?_append_left hlt] at hth₁
      exact Or.inl hth₁
    · rw [List.getElem?_append_right hge] at hth₁
      obtain ⟨hlast, hget⟩ := List.getElem?_eq_some_iff.mp hth₁
      rw [List.length_singleton] at hlast
      refine Or.inr ⟨by omega, ?_⟩
      rw [← hget]
      simp
  constructor
  · intro th₁ hth₁
    rcases hget i th₁ hth₁ with hold | ⟨hnew, rfl⟩
    · exact hS.deleter th₁ hold
    · exact ⟨hreq.trans (hi hnew), hlive⟩
  · intro th₁ hth₁
    rcases hget j th₁ hth₁ with hold | ⟨hnew, rfl⟩
    · exact hS.binder th₁ hold
    · obtain ⟨req, hr, hid⟩ := hj hnew
      exact ⟨⟨req, hreq.trans hr, hid⟩, hlive⟩
  · intro k th₁ hki hkj hth₁
    rcases hget k th₁ hth₁ with hold | ⟨rfl, rfl⟩
    · exact hS.others k th₁ hki hkj hold
    · rw [hreq]
      exact hothers hki hkj
  · intro k hk
    rw [phaseAt_start hidle]
    exact hS.answered k hk
  · have hstanding := hS.standing
    unfold Standing at hstanding ⊢
    rw [phaseAt_start hidle, phaseAt_start hidle]
    exact hstanding

end Score

/-- **One step of the duel.** -/
theorem score_step {cfg : BindingConfig} {p : Int} {i j : Nat} {c : BindingPool}
    {a : Act BindingRequest BindingInput Empty} (hij : i ≠ j)
    (hobey : Obeys (session cfg.mysql) (fun _ r => Ends r) c) (hL : Ledger cfg.mysql c)
    (hS : Score cfg.mysql p i j c) (hduel : Duel p i j c a) :
    Score cfg.mysql p i j ((bindings cfg).step c a) := by
  rcases step_cases (bindings cfg) hobey a with h | ⟨r, rfl, h⟩ |
    ⟨k, t, th, l, w, n, rfl, hth, hlive, hprog, hready, hallows, h⟩ | ⟨k, th, rfl, hth, h⟩ | ⟨e, -⟩
  · rw [h]
    exact hS
  · rw [h]
    exact hS.start rfl rfl rfl hduel
  · rw [h]
    rw [← phaseOf_live hlive] at hallows
    have hadvance := advance_of_allows hallows
    rw [← phaseOf_advance hlive l t c.store (n t c.store), hL.numbered k th hth] at hadvance
    by_cases hki : k = i
    · subst hki
      exact hS.moveDeleter hij hL hth rfl hlive (hduel (Or.inl rfl)) hadvance
    · by_cases hkj : k = j
      · subst hkj
        exact hS.moveBinder hij hL hth rfl hlive (hduel (Or.inr rfl)) hadvance
      · obtain ⟨hactive, hfree⟩ :=
          plugin_of_other hL hth (hS.others k th hki hkj hth) (kind_of_advance hready hadvance)
        have hneither : ¬ (k = i ∨ k = j) := fun h => h.elim hki hkj
        refine hS.set hth rfl ?_ ?_ (hS.standing.of_other hki hkj hactive hfree)
        · exact fun h => absurd h hneither
        · exact fun h => absurd h hneither
  · rw [h]
    have hneither : ¬ (k = i ∨ k = j) := fun h => h.elim hduel.1 hduel.2
    refine hS.set hth rfl ?_ ?_ (hS.standing.of_other hduel.1 hduel.2 id id)
    · exact fun h => absurd h hneither
    · exact fun h => absurd h hneither
  · exact e.elim

/-! ## The end of the duel -/

section End

variable {cfg : BindingConfig} {p : Int} {i j k : Nat} {c : BindingPool} {th thi thj : BindingThread}

variable {x : Except AppError (Option Function)}

theorem ends_of_result (hobey : Obeys (session cfg.mysql) (fun _ r => Ends r) c)
    (hth : c.threads[k]? = some th) (hresult : th.result = some x) :
    Ends th.req (phaseAt cfg.mysql c k) x := by
  have hfollows := hobey th (List.mem_of_getElem? hth)
  unfold Thread.result at hresult
  split at hresult
  case isTrue => cases hresult
  case isFalse hlive =>
    split at hresult
    case h_2 => cases hresult
    case h_1 a hprog =>
      obtain rfl := Option.some.inj hresult
      rw [hprog, follows_done_iff] at hfollows
      rw [phaseAt_eq hth, phaseOf_live (by simpa using hlive)]
      exact hfollows

theorem Score.one_succeeds (hobey : Obeys (session cfg.mysql) (fun _ r => Ends r) c)
    (hS : Score cfg.mysql p i j c) (hthi : c.threads[i]? = some thi)
    (hthj : c.threads[j]? = some thj) {y : Except AppError (Option Function)}
    (hx : thi.result = some x) (hy : thj.result = some y) : x.isOk = !y.isOk := by
  have hendi := ends_of_result hobey hthi hx
  have hendj := ends_of_result hobey hthj hy
  rw [(hS.deleter thi hthi).1] at hendi
  obtain ⟨⟨req, hreq, -⟩, -⟩ := hS.binder thj hthj
  rw [hreq] at hendj
  -- a deletion begins its transaction
  obtain ⟨o, hqi, hx, hfits⟩ : ∃ o, phaseAt cfg.mysql c i = .settled o ∧ x.isOk = o.good ∧
      o.fits (.softDelete p) = true := by
    rcases hendi with h | ⟨-, -, req, hr⟩
    · exact h
    · cases hr
  have hy : y.isOk = (phaseAt cfg.mysql c j).bound := by
    rcases hendj with ⟨o', hqj, hy, hfits'⟩ | ⟨hqj, hy, -⟩
    · rw [hy, hqj]
      cases o' with
      | deleted => cases hfits'
      | created f => rfl
      | refused => rfl
      | faulted => rfl
    · rw [hy, hqj]
      rfl
  have hunfailed := hS.answered i (Or.inl rfl)
  have hstanding := hS.standing
  unfold Standing at hstanding
  rw [hqi] at hunfailed hstanding
  rw [hx, hy]
  cases o with
  | created f => cases hfits
  | faulted => cases hunfailed
  | deleted =>
    rcases hstanding with ⟨-, -, hne, -, -⟩ | ⟨-, hbound⟩ | ⟨hne, -⟩
    · exact absurd rfl hne
    · rw [hbound]
      rfl
    · exact absurd rfl hne
  | refused =>
    rcases hstanding with ⟨-, -, -, hup, -⟩ | ⟨hdeleted, -⟩ | ⟨-, hbound⟩
    · cases hup
    · cases hdeleted
    · rw [hbound]
      rfl

end End

/-! ## Nobody waits in a circle -/

section Progress

variable {cfg : BindingConfig} {mysql : Mysql} {c : BindingPool} {m n : Nat} {r : BindingRequest}
  {q : Phase} {l : BindingStmt} {t : BindingInput} {s : BindingStore} {p : Int}

variable {n' : Nat}

theorem begun_of_lockPlugin {id : Int} {mode : LockMode}
    (h : (q.advance mysql n r (.lockPlugin n' id mode) t s).isSome = true) : q = .begun := by
  unfold Phase.advance at h
  split at h <;> first | rfl | contradiction

variable {identifier : String}

theorem locked_of_insertFunction
    (h : (q.advance mysql n r (.insertFunction n' identifier) t s).isSome = true) :
    q = .locked .shared := by
  unfold Phase.advance at h
  split at h <;> first | rfl | contradiction

theorem ready_of_writes (hwrites : q.writes p ≠ [])
    (h : (q.advance mysql n r l t s).isSome = true) : ready mysql l t s = true := by
  cases l with
  | lockPlugin n' id mode =>
    rw [begun_of_lockPlugin h] at hwrites
    exact absurd rfl hwrites
  | insertFunction n' identifier =>
    rw [locked_of_insertFunction h] at hwrites
    exact absurd rfl hwrites
  | _ => rfl

theorem inFlight_of_session (hobey : Obeys (session cfg.mysql) (fun _ r => Ends r) c)
    (hidle : phaseAt cfg.mysql c m ≠ .idle) (hopen : ∀ o, phaseAt cfg.mysql c m ≠ .settled o) :
    ∃ (th : BindingThread) (l : BindingStmt) (w : _) (n : _), c.threads[m]? = some th ∧
      th.crashed = false ∧ th.prog = .stmt l w n ∧
      ∀ t s, ((phaseAt cfg.mysql c m).advance cfg.mysql th.no th.req l t s).isSome = true := by
  cases hth : c.threads[m]? with
  | none =>
    rw [phaseAt, hth] at hidle
    exact absurd rfl hidle
  | some th =>
    rw [phaseAt_eq hth] at hidle hopen ⊢
    have hlive : th.crashed = false := by
      cases hcrashed : th.crashed with
      | false => rfl
      | true => exact absurd (if_pos hcrashed) (hopen .faulted)
    have hfollows := hobey th (List.mem_of_getElem? hth)
    rw [← phaseOf_live hlive] at hfollows
    cases hprog : th.prog with
    | done x =>
      rw [hprog, follows_done_iff] at hfollows
      rcases hfollows with ⟨o, hq, -⟩ | ⟨hq, -⟩
      · exact absurd hq (hopen o)
      · exact absurd hq hidle
    | stmt l w n =>
      rw [hprog] at hfollows
      refine ⟨th, l, w, n, rfl, hlive, hprog, ?_⟩
      intro t s
      rw [advance_of_allows ((follows_stmt_iff.mp hfollows).1 t s)]
      rfl

theorem moves_of_writes (hobey : Obeys (session cfg.mysql) (fun _ r => Ends r) c)
    (hL : Ledger cfg.mysql c) (hwrites : c.store.writesOf m ≠ []) (t : BindingInput) :
    (bindings cfg).Moves t c := by
  rw [hL.writes m] at hwrites
  have hidle : phaseAt cfg.mysql c m ≠ .idle := by
    intro hq
    rw [hq] at hwrites
    exact hwrites rfl
  have hopen : ∀ o, phaseAt cfg.mysql c m ≠ .settled o := by
    intro o hq
    rw [hq] at hwrites
    exact hwrites rfl
  obtain ⟨th, l, w, n, hth, hlive, hprog, hadvance⟩ := inFlight_of_session hobey hidle hopen
  exact ⟨m, th, l, w, n, hth, hlive, hprog, ready_of_writes hwrites (hadvance t c.store)⟩

theorem writesOf_of_insert_waits (h : ready mysql (.insertFunction n identifier) t s = false) :
    ∃ m, s.writesOf m ≠ [] := by
  obtain ⟨-, hall⟩ := Bool.or_eq_false_iff.mp h
  obtain ⟨⟨m, w⟩, hmem, -⟩ := List.all_eq_false.mp hall
  exact ⟨m, List.ne_nil_of_mem (Locking.mem_writesOf.mpr hmem)⟩

/-- The next statement of a session with a lock can be executed, or it waits for one
that can. -/
theorem moves_of_locks (hobey : Obeys (session cfg.mysql) (fun _ r => Ends r) c)
    (hL : Ledger cfg.mysql c) (hlocks : c.store.locksOf m ≠ []) (t : BindingInput) :
    (bindings cfg).Moves t c := by
  rw [hL.locks m] at hlocks
  have hidle : phaseAt cfg.mysql c m ≠ .idle := by
    intro hq
    rw [hq] at hlocks
    exact hlocks rfl
  have hopen : ∀ o, phaseAt cfg.mysql c m ≠ .settled o := by
    intro o hq
    rw [hq] at hlocks
    exact hlocks rfl
  obtain ⟨th, l, w, n, hth, hlive, hprog, hadvance⟩ := inFlight_of_session hobey hidle hopen
  cases hready : ready cfg.mysql l t c.store with
  | true => exact ⟨m, th, l, w, n, hth, hlive, hprog, hready⟩
  | false =>
    cases l with
    | lockPlugin n' id mode =>
      rw [begun_of_lockPlugin (hadvance t c.store)] at hlocks
      exact absurd rfl hlocks
    | insertFunction n' identifier =>
      obtain ⟨m', hwrites⟩ := writesOf_of_insert_waits hready
      exact moves_of_writes hobey hL hwrites t
    | _ => cases hready

/-- **No deadlock.** As long as a request is under way, one can be moved. -/
theorem some_request_moves (hobey : Obeys (session cfg.mysql) (fun _ r => Ends r) c)
    (hL : Ledger cfg.mysql c) (hbusy : ¬ c.Quiet) (t : BindingInput) :
    (bindings cfg).Moves t c := by
  unfold Pool.Quiet at hbusy
  push Not at hbusy
  obtain ⟨th, hmem, hflight⟩ := hbusy
  obtain ⟨k, hth⟩ := List.mem_iff_getElem?.mp hmem
  have hlive : th.crashed = false := by
    cases hcrashed : th.crashed with
    | false => rfl
    | true => simp [Thread.inFlight, hcrashed] at hflight
  cases hprog : th.prog with
  | done x => simp [Thread.inFlight, hprog] at hflight
  | stmt l w n =>
    cases hready : ready cfg.mysql l t c.store with
    | true => exact ⟨k, th, l, w, n, hth, hlive, hprog, hready⟩
    | false =>
      cases l with
      | lockPlugin n' id mode =>
        obtain ⟨-, hgrants⟩ := Bool.or_eq_false_iff.mp hready
        obtain ⟨⟨m, id', mode'⟩, hlock, -⟩ := List.all_eq_false.mp hgrants
        have hlocks : c.store.locksOf m ≠ [] := List.ne_nil_of_mem (Locking.mem_locksOf.mpr hlock)
        exact moves_of_locks hobey hL hlocks t
      | insertFunction n' identifier =>
        obtain ⟨m, hwrites⟩ := writesOf_of_insert_waits hready
        exact moves_of_writes hobey hL hwrites t
      | _ => cases hready

end Progress

/-! ## The results -/

def atRest (d : BindingTables) : BindingPool := { threads := [], store := { data := d } }

/-- The answer of the `k`-th request. -/
def answerAt (c : BindingPool) (k : Nat) : Option (Except AppError (Option Function)) :=
  c.threads[k]?.bind Thread.result

/-- The next statements of these requests, in this order, each answered. -/
def moves (ks : List Nat) : List (Act BindingRequest BindingInput Empty) :=
  ks.map fun k => .move k {}

section Results

variable {cfg : BindingConfig} {d : BindingTables} {p : Int} {i j : Nat} {c : BindingPool}

def Kept (cfg : BindingConfig) (c : BindingPool) : Prop :=
  Obeys (session cfg.mysql) (fun _ r => Ends r) c ∧ Ledger cfg.mysql c

theorem Kept.step (h : Kept cfg c) (a : Act BindingRequest BindingInput Empty) :
    Kept cfg ((bindings cfg).step c a) :=
  ⟨h.1.step (follows_handle cfg) a, ledger_step h.1 h.2⟩

theorem ledger_atRest (hsafe : d.Safe) : Ledger cfg.mysql (atRest d) where
  numbered := nofun
  locks _ := rfl
  writes _ := rfl
  knows _ := trivial
  compatible := by
    intro n m k hne hexclusive
    cases hexclusive
  safe := hsafe

theorem kept_atRest (hsafe : d.Safe) : Kept cfg (atRest d) :=
  ⟨nofun, ledger_atRest hsafe⟩

theorem kept_of_reach (hsafe : d.Safe)
    {P : BindingPool → Act BindingRequest BindingInput Empty → Prop}
    (h : (bindings cfg).Reach P (atRest d) c) : Kept cfg c :=
  h.inv (kept_atRest hsafe) fun _ a hc _ => hc.step a

theorem score_atRest (hactive : d.Active p) (hfree : d.Unreferenced p) :
    Score cfg.mysql p i j (atRest d) where
  deleter := nofun
  binder := nofun
  others := nofun
  answered _ _ := rfl
  standing := Or.inl ⟨hactive, hfree, nofun, rfl, rfl⟩

theorem score_of_reach (hsafe : d.Safe) (hij : i ≠ j) (hactive : d.Active p)
    (hfree : d.Unreferenced p) (h : (bindings cfg).Reach (Duel p i j) (atRest d) c) :
    Score cfg.mysql p i j c := by
  have hboth : Kept cfg c ∧ Score cfg.mysql p i j c := by
    refine h.inv (I := fun c => Kept cfg c ∧ Score cfg.mysql p i j c)
      ⟨kept_atRest hsafe, score_atRest hactive hfree⟩ ?_
    intro c a hc hduel
    exact ⟨hc.1.step a, score_step hij hc.1.1 hc.1.2 hc.2 hduel⟩
  exact hboth.2

theorem Kept.exists_moves (h : Kept cfg c) : ∃ ks, ((bindings cfg).run c (moves ks)).Quiet := by
  have hmoves : ∀ c : BindingPool, Kept cfg c → ¬ c.Quiet → (bindings cfg).Moves {} c :=
    fun c hc hbusy => some_request_moves hc.1 hc.2 hbusy {}
  exact System.exists_quiet (I := Kept cfg) (fun _ _ hc => hc.step _) hmoves h

theorem reach_moves {c₀ : BindingPool} (h : (bindings cfg).Reach (Duel p i j) c₀ c)
    (ks : List Nat) :
    (bindings cfg).Reach (Duel p i j) c₀ ((bindings cfg).run c (moves ks)) := by
  induction ks generalizing c with
  | nil => exact h
  | cons k ks ih => exact ih (h.step fun _ => rfl)

theorem length_moves (cfg : BindingConfig) (c : BindingPool) (ks : List Nat) :
    ((bindings cfg).run c (moves ks)).threads.length = c.threads.length := by
  induction ks generalizing c with
  | nil => rfl
  | cons k ks ih =>
    have hone := (bindings cfg).length_move c k {}
    exact (ih _).trans hone

theorem answerAt_of_quiet {k : Nat} {th : BindingThread} (hquiet : c.Quiet)
    (hth : c.threads[k]? = some th) (hlive : th.crashed = false) :
    ∃ x, th.result = some x ∧ answerAt c k = some x := by
  have hflight := hquiet th (List.mem_of_getElem? hth)
  cases hprog : th.prog with
  | stmt l w n => simp [Thread.inFlight, hlive, hprog] at hflight
  | done x =>
    have hresult : th.result = some x := by simp [Thread.result, hlive, hprog]
    exact ⟨x, hresult, by simp [answerAt, hth, hresult]⟩

/-- **Exactly one succeeds**, when both have ended. -/
theorem one_of_answers (hsafe : d.Safe) (hij : i ≠ j) (hactive : d.Active p)
    (hfree : d.Unreferenced p) (h : (bindings cfg).Reach (Duel p i j) (atRest d) c)
    {x y : Except AppError (Option Function)} (hx : answerAt c i = some x)
    (hy : answerAt c j = some y) : x.isOk = !y.isOk := by
  obtain ⟨thi, hthi, hx⟩ := Option.bind_eq_some_iff.mp hx
  obtain ⟨thj, hthj, hy⟩ := Option.bind_eq_some_iff.mp hy
  have hS := score_of_reach hsafe hij hactive hfree h
  exact hS.one_succeeds (kept_of_reach hsafe h).1 hthi hthj hx hy

theorem exists_answers (hsafe : d.Safe) (hij : i ≠ j) (hactive : d.Active p)
    (hfree : d.Unreferenced p) (h : (bindings cfg).Reach (Duel p i j) (atRest d) c)
    (hi : i < c.threads.length) (hj : j < c.threads.length) :
    ∃ ks x y, answerAt ((bindings cfg).run c (moves ks)) i = some x ∧
      answerAt ((bindings cfg).run c (moves ks)) j = some y := by
  obtain ⟨ks, hquiet⟩ := (kept_of_reach hsafe h).exists_moves
  have hreach := reach_moves h ks
  have hS := score_of_reach hsafe hij hactive hfree hreach
  rw [← length_moves cfg c ks] at hi hj
  have hthi := List.getElem?_eq_getElem hi
  have hthj := List.getElem?_eq_getElem hj
  obtain ⟨x, -, hx⟩ := answerAt_of_quiet hquiet hthi (hS.deleter _ hthi).2
  obtain ⟨y, -, hy⟩ := answerAt_of_quiet hquiet hthj (hS.binder _ hthj).2
  exact ⟨ks, x, y, hx, hy⟩

end Results

/-- **No function of a deleted plugin.** Whatever `soft_delete` and `create_custom`
requests are interleaved, with whatever failures, no committed function is bound to a
deleted plugin, and the requests under way can be brought to their end. Of a
`soft_delete` and a `create_custom` of a plugin in use without functions, exactly one
succeeds. -/
theorem no_function_of_deleted_plugin (cfg : BindingConfig) (d : BindingTables) (hsafe : d.Safe) :
    (∀ c, (bindings cfg).Reach (fun _ _ => True) (atRest d) c →
      c.store.data.Safe ∧ ∃ ks, ((bindings cfg).run c (moves ks)).Quiet) ∧
    ∀ p i j, i ≠ j → d.Active p → d.Unreferenced p →
      ∀ c, (bindings cfg).Reach (Duel p i j) (atRest d) c →
        (∀ x y, answerAt c i = some x → answerAt c j = some y → x.isOk = !y.isOk) ∧
        (i < c.threads.length → j < c.threads.length →
          ∃ ks x y, answerAt ((bindings cfg).run c (moves ks)) i = some x ∧
            answerAt ((bindings cfg).run c (moves ks)) j = some y ∧ x.isOk = !y.isOk) := by
  refine ⟨?_, ?_⟩
  · intro c h
    have hkept := kept_of_reach hsafe h
    exact ⟨hkept.2.safe, hkept.exists_moves⟩
  · intro p i j hij hactive hfree c h
    refine ⟨fun x y hx hy => one_of_answers hsafe hij hactive hfree h hx hy, ?_⟩
    intro hi hj
    obtain ⟨ks, x, y, hx, hy⟩ := exists_answers hsafe hij hactive hfree h hi hj
    exact ⟨ks, x, y, hx, hy, one_of_answers hsafe hij hactive hfree (reach_moves h ks) hx hy⟩

def weather : Plugin :=
  { id := 1, identifier := "weather", name := "weather", description := none, manifest := none
    runtime := "wasm", version := "1.0.0", author := none, repositoryUrl := none
    s3Key := "plugins/weather/1.0.0.wasm", sha256 := "", sizeBytes := 8, categoryId := none
    createdAt := 0, updatedAt := 0, deletedAt := none }

def weatherOnly : BindingTables := { plugins := [weather] }

def forecast : CreateMeta :=
  { identifier := "forecast", name := "forecast", pluginId := 1, pluginExport := "forecast"
    inputSchema := .obj [], outputSchema := .obj [] }

def lenient : BindingConfig := { mysql := Mysql.plain, compileSchema := fun _ => .ok () }

def bothArrived : BindingPool :=
  (bindings lenient).run (atRest weatherOnly) [.start (.softDelete 1), .start (.createCustom forecast)]

/-- The two can be brought to their end, and then one has succeeded. -/
theorem no_function_of_deleted_weather :
    ∃ ks x y, answerAt ((bindings lenient).run bothArrived (moves ks)) 0 = some x ∧
      answerAt ((bindings lenient).run bothArrived (moves ks)) 1 = some y ∧ x.isOk = !y.isOk := by
  have hsafe : weatherOnly.Safe := nofun
  have hactive : weatherOnly.Active 1 := ⟨weather, rfl, rfl⟩
  have hreach : (bindings lenient).Reach (Duel 1 0 1) (atRest weatherOnly) bothArrived := by
    refine System.reach_run ⟨⟨fun _ => rfl, nofun, fun h => absurd rfl h⟩, ⟨nofun, ?_, ?_⟩, trivial⟩
    · exact fun _ => ⟨forecast, rfl, rfl⟩
    · exact fun _ h => absurd rfl h
  have hrace := (no_function_of_deleted_plugin lenient weatherOnly hsafe).2 1 0 1 (by decide) hactive
    nofun bothArrived hreach
  exact hrace.2 (by decide) (by decide)

end HiveClaw.PluginBinding
