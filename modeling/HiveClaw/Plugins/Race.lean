import HiveClaw.Plugins.Binding

/-!
# No function of a deleted plugin

Any number of `soft_delete` and `create_custom` requests, interleaved statement by
statement. What a request does is told by its phase (`Phase`): which lock it holds
on the row of its plugin, what it has written, and what it has seen of the plugin
that cannot change while it holds the lock (`Phase.Knows`). The invariant
(`Ledger`) says that the sessions of the store are those of the phases and that
their knowledge is true; it gives that no committed function is bound to a deleted
plugin.

For a `soft_delete` and a `create_custom` that are alone on a plugin (`Duel`) the
invariant `Score` follows who has committed.
-/

namespace HiveClaw.PluginBinding

open Lib

/-! ## Phases -/

inductive Outcome where
  | deleted
  | created (f : Function)
  | refused
  | faulted
deriving DecidableEq

def Outcome.good : Outcome → Bool
  | .deleted | .created _ => true
  | .refused | .faulted => false

def Outcome.fits : BindingRequest → Outcome → Bool
  | .softDelete _, .created _ | .createCustom _, .deleted => false
  | _, _ => true

theorem Outcome.fits_of_bad {o : Outcome} (h : o.good = false) (r : BindingRequest) :
    o.fits r = true := by
  cases o with
  | deleted => cases h
  | created f => cases h
  | refused => cases r <;> rfl
  | faulted => cases r <;> rfl

/-- Where a request is. The flag of `rollingBack` says that the server has failed. -/
inductive Phase where
  | idle
  | begun
  | locked (mode : LockMode)
  | cleared
  | marked (at_ : DateTime)
  | inserted (f : Function) (tags : List Tagging)
  | rollingBack (locks : List (Int × LockMode)) (writes : List BindingWrite) (failed : Bool)
  | committed (f : Function)
  | settled (o : Outcome)
deriving DecidableEq

def BindingRequest.mode : BindingRequest → LockMode
  | .softDelete _ => .exclusive
  | .createCustom _ => .shared

namespace Phase

/-- The locks of a request on plugin `p`. -/
def locks (p : Int) : Phase → List (Int × LockMode)
  | .locked mode => [(p, mode)]
  | .cleared | .marked _ => [(p, .exclusive)]
  | .inserted _ _ => [(p, .shared)]
  | .rollingBack ls _ _ => ls
  | _ => []

/-- The writes it has not committed. -/
def writes (p : Int) : Phase → List BindingWrite
  | .marked t => [.softDelete p t]
  | .inserted f tags => .insertFunction f :: tags.map .bindTag
  | .rollingBack _ ws _ => ws
  | _ => []

/-- A failed or refused transaction on plugin `p` that is still open. -/
def abort (p : Int) (q : Phase) (failed : Bool) : Phase :=
  .rollingBack (q.locks p) (q.writes p) failed

/-- What the `n`-th request does in phase `q` when it executes statement `l`: the
phase and the store after it; `none` if there is no such statement. -/
def advance (mysql : Mysql) (n : Nat) (r : BindingRequest) (q : Phase) (l : BindingStmt)
    (i : BindingInput) (s : BindingStore) : Option (Phase × BindingStore) :=
  match q, l, r with
  | .idle, .begin, _ => some (if i.fault = none then .begun else .settled .faulted, s)
  | .begun, .lockPlugin n' id mode, r =>
    if n' = n ∧ id = r.target ∧ mode = r.mode then
      match i.fault, s.data.plugin? id with
      | some _, _ => some (abort id .begun true, s)
      | none, none => some (abort id .begun false, s)
      | none, some p =>
        some (if p.deletedAt = none then .locked mode else abort id (.locked mode) false,
          s.lock n id mode)
    else none
  | .locked .exclusive, .count, .softDelete id =>
    if i.fault ≠ none then some (abort id (.locked .exclusive) true, s)
    else if s.data.references id = 0 then some (.cleared, s)
    else some (abort id (.locked .exclusive) false, s)
  | .cleared, .markDeleted, .softDelete id =>
    if i.fault ≠ none then some (abort id .cleared true, s)
    else some (.marked i.now.toSecond, s.write n (.softDelete id i.now.toSecond))
  | .marked t, .commit, .softDelete id =>
    if i.fault = none then some (.settled .deleted, s.commit BindingTables.apply n)
    else if i.executed then some (.rollingBack [] [] true, s.commit BindingTables.apply n)
    else some (abort id (.marked t) true, s)
  | .locked .shared, .insertFunction n' identifier, .createCustom req =>
    if n' = n ∧ identifier = req.identifier then
      match i.fault, (columns req).find? fun c => c.2.1.length > c.2.2 with
      | some _, _ => some (abort req.pluginId (.locked .shared) true, s)
      | none, some _ => some (abort req.pluginId (.locked .shared) false, s)
      | none, none =>
        match checkKeys mysql s.data req with
        | .error _ => some (abort req.pluginId (.locked .shared) false, burnId s)
        | .ok () =>
          let f := newFunction mysql req s.data.functionsAutoIncrement
          some (.inserted f [], (burnId s).write n (.insertFunction f))
    else none
  | .inserted f tags, .bindTag t, .createCustom req =>
    if i.fault ≠ none then some (abort req.pluginId (.inserted f tags) true, s)
    else if (s.data.tags.any fun tag => tag.id = t.tagId) && !s.data.taggings.contains t &&
        !(s.writesOf n).contains (.bindTag t) then
      some (.inserted f (tags ++ [t]), s.write n (.bindTag t))
    else some (.inserted f tags, s)
  | .inserted f tags, .commit, .createCustom req =>
    if i.fault = none then some (.committed f, s.commit BindingTables.apply n)
    else if i.executed then some (.rollingBack [] [] true, s.commit BindingTables.apply n)
    else some (abort req.pluginId (.inserted f tags) true, s)
  | .rollingBack _ _ failed, .rollback, _ =>
    some (.settled (if failed then .faulted else .refused), s.release n)
  | .committed f, .fetch, .createCustom _ =>
    some (if i.fault = none ∧ (s.data.function? f.id).isSome then .settled (.created f)
      else .settled .faulted, s)
  | _, _, _ => none

end Phase

/-- The protocol of the `n`-th request. -/
def session (mysql : Mysql) (n : Nat) (r : BindingRequest) :
    Protocol Phase BindingStmt BindingInput BindingStore where
  init := .idle
  next q l i s := ((q.advance mysql n r l i s).map Prod.fst).getD q
  allows q l i s s' := (q.advance mysql n r l i s).map Prod.snd = some s'

/-- How a request may end. Only `create_custom` can end before its transaction, with
a schema that is no schema. -/
def Ends {α : Type} (r : BindingRequest) (q : Phase) (x : Except AppError α) : Prop :=
  (∃ o, q = .settled o ∧ x.isOk = o.good ∧ o.fits r = true) ∨
    (q = .idle ∧ x.isOk = false ∧ ∃ req, r = .createCustom req)

/-! ## The services keep to the protocol -/

section Services

variable {mysql : Mysql} {n : Nat} {r : BindingRequest} {α β : Type} {q : Phase}

/-- Inside the transaction: an error leaves it to be rolled back. -/
def Inside (G : Phase → α → Prop) (q : Phase) (x : Except AppError α) : Prop :=
  match x with
  | .ok a => G q a
  | .error _ => ∃ ls ws failed, q = .rollingBack ls ws failed

variable {l : BindingStmt}

theorem follows_modify {f : BindingInput → BindingStore → α × BindingStore} {E : Phase → α → Prop}
    (h : ∀ i s, ∃ q', q.advance mysql n r l i s = some (q', (f i s).2) ∧ E q' (f i s).1) :
    Follows (session mysql n r) E q (Prog.modify l f) := by
  refine follows_modify_iff.mpr ⟨?_, ?_⟩
  · intro i s
    obtain ⟨q', hq', -⟩ := h i s
    show (q.advance mysql n r l i s).map Prod.snd = some (f i s).2
    rw [hq']
    rfl
  · intro i s
    obtain ⟨q', hq', hE⟩ := h i s
    show E (((q.advance mysql n r l i s).map Prod.fst).getD q) (f i s).1
    rw [hq']
    exact hE

variable {what : String}

theorem follows_ask {read : BindingTables → α} {E : Phase → Except AppError α → Prop}
    (h : ∀ i s, ∃ q', q.advance mysql n r l i s = some (q', s) ∧
      (∀ e, i.fault = some e → E q' (.error (.internal (what ++ ": " ++ e)))) ∧
      (i.fault = none → E q' (.ok (read s.data)))) :
    Follows (session mysql n r) E q (ask l what read).run := by
  refine follows_read_iff.mpr ⟨?_, ?_⟩
  · intro i s
    obtain ⟨q', hq', -⟩ := h i s
    show (q.advance mysql n r l i s).map Prod.snd = some s
    rw [hq']
    rfl
  · intro i s
    obtain ⟨q', hq', herror, hok⟩ := h i s
    show E (((q.advance mysql n r l i s).map Prod.fst).getD q) _
    rw [hq']
    dsimp only [Option.map_some, Option.getD_some]
    cases hfault : i.fault with
    | none => exact hok hfault
    | some e => exact herror e hfault

variable {m : Binding α} {G : Phase → α → Prop}

theorem follows_inTx (hm : Follows (session mysql n r) (Inside G) q m.run) :
    Follows (session mysql n r)
      (fun q x => match x with
        | .ok a => G q a
        | .error _ => ∃ o, q = .settled o ∧ o.good = false) q (inTx n m).run := by
  refine hm.bind ?_
  intro q x hx
  cases x with
  | ok a => exact .done hx
  | error e =>
    obtain ⟨ls, ws, failed, rfl⟩ := hx
    refine follows_modify ?_
    intro i s
    refine ⟨.settled (if failed then .faulted else .refused), rfl, _, rfl, ?_⟩
    cases failed <;> rfl

/-- What the locking read returns is what the phase says. -/
def Seen (mode : LockMode) (q : Phase) (row : Option Plugin) : Prop :=
  ((∃ p, row = some p ∧ p.deletedAt = none) ∧ q = .locked mode) ∨
    ((∀ p, row = some p → p.deletedAt ≠ none) ∧ ∃ ls ws failed, q = .rollingBack ls ws failed)

theorem follows_lockPlugin {id : Int} {mode : LockMode} (hid : id = r.target)
    (hmode : mode = r.mode) :
    Follows (session mysql n r) (Inside (Seen mode)) .begun (lockPlugin n what id mode).run := by
  refine follows_modify ?_
  intro i s
  dsimp only [Phase.advance]
  rw [if_pos ⟨rfl, hid, hmode⟩]
  cases i.fault with
  | some e => exact ⟨_, rfl, _, _, _, rfl⟩
  | none =>
    cases s.data.plugin? id with
    | none => exact ⟨_, rfl, Or.inr ⟨fun _ h => (by cases h), _, _, _, rfl⟩⟩
    | some p =>
      by_cases hdeleted : p.deletedAt = none
      · exact ⟨_, rfl, Or.inl ⟨⟨p, rfl, hdeleted⟩, if_pos hdeleted⟩⟩
      · refine ⟨_, rfl, Or.inr ⟨?_, ?_⟩⟩
        · intro p' hp'
          cases hp'
          exact hdeleted
        · rw [if_neg hdeleted]
          exact ⟨_, _, _, rfl⟩

theorem inside_abort {p : Int} {failed : Bool} {e : AppError} :
    Inside G (q.abort p failed) (.error e) :=
  ⟨_, _, _, rfl⟩

theorem follows_markDeleted (id : Int) :
    Follows (session mysql n (.softDelete id)) (Inside fun q _ => ∃ t, q = .marked t) .cleared
      (markDeleted n id).run := by
  refine follows_modify ?_
  intro i s
  dsimp only [Phase.advance]
  cases i.fault with
  | some e => exact ⟨_, rfl, inside_abort⟩
  | none => exact ⟨_, rfl, _, rfl⟩

theorem follows_commit (q' : Phase) (hq : ∀ i s,
    q.advance mysql n r .commit i s =
      if i.fault = none then some (q', s.commit BindingTables.apply n)
      else if i.executed then some (.rollingBack [] [] true, s.commit BindingTables.apply n)
      else some (q.abort r.target true, s)) :
    Follows (session mysql n r) (Inside fun q _ => q = q') q (commitTx n what).run := by
  refine follows_modify ?_
  intro i s
  rw [hq]
  cases i.fault with
  | none => exact ⟨_, rfl, rfl⟩
  | some e =>
    cases i.executed with
    | true => exact ⟨_, rfl, _, _, _, rfl⟩
    | false => exact ⟨_, rfl, inside_abort⟩

theorem Follows.inside {f : α → Binding β} {G' : Phase → β → Prop}
    (hm : Follows (session mysql n r) (Inside G) q m.run)
    (hf : ∀ q a, G q a → Follows (session mysql n r) (Inside G') q (f a).run) :
    Follows (session mysql n r) (Inside G') q (m >>= f).run :=
  hm.bindE (fun _ _ h => h) hf

theorem follows_begin (what : String) :
    Follows (session mysql n r)
      (fun q (x : Except AppError Unit) => q = if x.isOk then .begun else .settled .faulted) .idle
      (ask .begin what fun _ => ()).run := by
  refine follows_ask ?_
  intro i s
  refine ⟨_, rfl, ?_, ?_⟩
  · intro e he
    exact if_neg (by simp [he])
  · intro hfault
    exact if_pos hfault

theorem follows_softDelete (id : Int) :
    Follows (session mysql n (.softDelete id)) (Ends (.softDelete id)) .idle
      (softDelete n id).run := by
  refine (follows_begin "tx begin").bindE ?_ ?_
  · intro q e hq
    exact Or.inl ⟨.faulted, hq, rfl, rfl⟩
  intro q _ hq
  obtain rfl : q = .begun := hq
  refine (follows_inTx (G := fun q _ => q = .settled .deleted) ?_).mono ?_
  · refine Follows.inside (follows_lockPlugin rfl rfl) ?_
    intro q row hseen
    cases row with
    | none =>
      obtain ⟨⟨p, hp, -⟩, -⟩ | ⟨-, hq⟩ := hseen
      · cases hp
      · exact .done hq
    | some p =>
      dsimp only
      obtain ⟨⟨p', hp', hactive⟩, rfl⟩ | ⟨hdeleted, hq⟩ := hseen
      · obtain rfl := Option.some.inj hp'
        rw [if_neg (not_not.mpr hactive)]
        have hcount : Follows (session mysql n (.softDelete id))
            (Inside fun q (cnt : Nat) => (cnt = 0 ∧ q = .cleared) ∨
              (0 < cnt ∧ ∃ ls ws failed, q = .rollingBack ls ws failed)) (.locked .exclusive)
            (ask .count "plugin ref count" fun d => d.references id).run := by
          refine follows_ask ?_
          intro i s
          dsimp only [Phase.advance]
          cases i.fault with
          | some e => exact ⟨_, rfl, fun _ _ => inside_abort, nofun⟩
          | none =>
            by_cases hzero : s.data.references id = 0
            · exact ⟨_, by simp [hzero], nofun, fun _ => Or.inl ⟨hzero, rfl⟩⟩
            · exact ⟨_, by simp [hzero]; rfl, nofun,
                fun _ => Or.inr ⟨Nat.pos_of_ne_zero hzero, _, _, _, rfl⟩⟩
        refine Follows.inside hcount ?_
        rintro q cnt (⟨rfl, rfl⟩ | ⟨hpos, hq⟩)
        · rw [if_neg (Nat.lt_irrefl 0)]
          refine Follows.inside (follows_markDeleted id) ?_
          rintro q _ ⟨t, rfl⟩
          exact follows_commit (.settled .deleted) fun i s => rfl
        · rw [if_pos hpos]
          exact .done hq
      · rw [if_pos (hdeleted p rfl)]
        exact .done hq
  · intro q x hx
    cases x with
    | ok a => exact Or.inl ⟨.deleted, hx, rfl, rfl⟩
    | error e =>
      obtain ⟨o, hq, hgood⟩ := hx
      exact Or.inl ⟨o, hq, hgood.symm, Outcome.fits_of_bad hgood _⟩

variable {req : CreateMeta}

theorem follows_insertFunction :
    Follows (session mysql n (.createCustom req))
      (Inside fun q id => ∃ f, q = .inserted f [] ∧ f.id = id) (.locked .shared)
      (insertFunction mysql n req).run := by
  refine follows_modify ?_
  intro i s
  dsimp only [Phase.advance]
  rw [if_pos ⟨rfl, rfl⟩]
  cases i.fault with
  | some e => exact ⟨_, rfl, inside_abort⟩
  | none =>
    cases (columns req).find? fun c => c.2.1.length > c.2.2 with
    | some c => exact ⟨_, rfl, inside_abort⟩
    | none =>
      dsimp only
      cases checkKeys mysql s.data req with
      | error e => exact ⟨_, rfl, inside_abort⟩
      | ok u => exact ⟨_, rfl, _, rfl, rfl⟩

theorem follows_bindTags (f : Function) (id : Int) (ids : List Int) (tags : List Tagging) :
    Follows (session mysql n (.createCustom req)) (Inside fun q _ => ∃ tags, q = .inserted f tags)
      (.inserted f tags) (bindTags n id ids).run := by
  induction ids generalizing tags with
  | nil => exact .done ⟨tags, rfl⟩
  | cons tagId rest ih =>
    have hbind : Follows (session mysql n (.createCustom req))
        (Inside fun q _ => ∃ tags, q = .inserted f tags) (.inserted f tags)
        (bindTag n ⟨tagId, "function", id⟩).run := by
      refine follows_modify ?_
      intro i s
      dsimp only [Phase.advance]
      cases i.fault with
      | some e => exact ⟨_, rfl, inside_abort⟩
      | none =>
        dsimp only
        rw [if_neg (not_not.mpr rfl)]
        split
        · exact ⟨_, rfl, _, rfl⟩
        · exact ⟨_, rfl, _, rfl⟩
    refine Follows.inside hbind ?_
    rintro q _ ⟨tags, rfl⟩
    exact ih tags

theorem follows_bindFunction (cfg : BindingConfig) :
    Follows (session cfg.mysql n (.createCustom req))
      (Inside fun q id => ∃ f, q = .committed f ∧ f.id = id) .begun
      (bindFunction cfg n req).run := by
  refine Follows.inside (follows_lockPlugin rfl rfl) ?_
  intro q row hseen
  cases row with
  | none =>
    obtain ⟨⟨p, hp, -⟩, -⟩ | ⟨-, hq⟩ := hseen
    · cases hp
    · exact .done hq
  | some p =>
    dsimp only
    obtain ⟨⟨p', hp', hactive⟩, rfl⟩ | ⟨hdeleted, hq⟩ := hseen
    · obtain rfl := Option.some.inj hp'
      rw [if_neg (not_not.mpr hactive)]
      refine Follows.inside follows_insertFunction ?_
      rintro q id ⟨f, rfl, hid⟩
      refine Follows.inside (follows_bindTags f id req.tagIds []) ?_
      rintro q _ ⟨tags, rfl⟩
      refine Follows.inside (follows_commit (.committed f) fun i s => rfl) ?_
      rintro q _ rfl
      exact .done ⟨f, rfl, hid⟩
    · rw [if_pos (hdeleted p rfl)]
      exact .done hq

theorem follows_fetchFunction {f : Function} :
    Follows (session mysql n (.createCustom req)) (Ends (.createCustom req)) (.committed f)
      (fetchFunction f.id).run := by
  have hask : Follows (session mysql n (.createCustom req))
      (fun q x => match x with
        | .ok row => q = if row.isSome then .settled (.created f) else .settled .faulted
        | .error _ => q = .settled .faulted) (.committed f)
      (ask .fetch "function fetch" fun d => d.function? f.id).run := by
    refine follows_ask ?_
    intro i s
    refine ⟨_, rfl, ?_, ?_⟩
    · intro e he
      exact if_neg (by simp [he])
    · intro hfault
      simp only [hfault, true_and]
  refine hask.bindE ?_ ?_
  · intro q e hq
    exact Or.inl ⟨.faulted, hq, rfl, rfl⟩
  intro q row hq
  cases row with
  | some f' => exact .done (Or.inl ⟨.created f, hq, rfl, rfl⟩)
  | none => exact .done (Or.inl ⟨.faulted, hq, rfl, rfl⟩)

theorem follows_createCustom (cfg : BindingConfig) :
    Follows (session cfg.mysql n (.createCustom req)) (Ends (.createCustom req)) .idle
      (createCustom cfg n req).run := by
  have hschema : ∀ schema label, Follows (session cfg.mysql n (.createCustom req))
      (fun q _ => q = .idle) .idle
      (ExceptT.mk (pure (validateSchema cfg schema label)) : Binding Unit).run :=
    fun _ _ => .done rfl
  have hidle : ∀ e : AppError,
      Ends (.createCustom req) .idle (.error e : Except AppError Function) :=
    fun e => Or.inr ⟨rfl, rfl, req, rfl⟩
  refine Follows.stay_bind (hschema _ _) hidle ?_
  intro _
  refine Follows.stay_bind (hschema _ _) hidle ?_
  intro _
  refine (follows_begin "function transaction begin").bindE ?_ ?_
  · intro q e hq
    exact Or.inl ⟨.faulted, hq, rfl, rfl⟩
  intro q _ hq
  obtain rfl : q = .begun := hq
  refine (follows_inTx (follows_bindFunction cfg)).bindE ?_ ?_
  · rintro q e ⟨o, hq, hgood⟩
    exact Or.inl ⟨o, hq, hgood.symm, Outcome.fits_of_bad hgood _⟩
  · rintro q id ⟨f, rfl, rfl⟩
    exact follows_fetchFunction

theorem follows_handle (cfg : BindingConfig) (n : Nat) (r : BindingRequest) :
    Follows (session cfg.mysql n r) (Ends r) (session cfg.mysql n r).init
      ((bindings cfg).program n r) := by
  cases r with
  | softDelete id =>
    refine (follows_softDelete id).bind ?_
    intro q x hx
    cases x <;> exact .done hx
  | createCustom req =>
    refine (follows_createCustom cfg).bind ?_
    intro q x hx
    cases x <;> exact .done hx

end Services

/-! ## What the tables say of a plugin -/

namespace BindingTables

variable {d : BindingTables} {p : Int}

/-- The plugin is there and in use. -/
def Active (d : BindingTables) (p : Int) : Prop :=
  ∃ row, d.plugin? p = some row ∧ row.deletedAt = none

def Deleted (d : BindingTables) (p : Int) : Prop :=
  ∀ row ∈ d.plugins, row.id = p → row.deletedAt ≠ none

/-- No function is bound to the plugin. -/
def Unreferenced (d : BindingTables) (p : Int) : Prop :=
  ∀ f ∈ d.functions, f.pluginId ≠ some p

/-- No function is bound to a deleted plugin. -/
def Safe (d : BindingTables) : Prop :=
  ∀ f ∈ d.functions, ∀ row ∈ d.plugins, f.pluginId = some row.id → row.deletedAt = none

theorem mem_of_plugin? {row : Plugin} (h : d.plugin? p = some row) :
    row ∈ d.plugins ∧ row.id = p := by
  have hfind := List.find?_some h
  exact ⟨List.mem_of_find?_eq_some h, of_decide_eq_true hfind⟩

theorem Active.deletedAt (h : d.Active p) {row : Plugin} (hrow : row ∈ d.plugins)
    (hid : row.id = p) : row.deletedAt = none := by
  obtain ⟨row', hfind, hnone⟩ := h
  obtain ⟨hmem, hid'⟩ := mem_of_plugin? hfind
  have heq : row = row' := List.inj_on_of_nodup_map d.primaryKey hrow hmem (hid.trans hid'.symm)
  rw [heq]
  exact hnone

theorem Active.not_deleted (h : d.Active p) : ¬ d.Deleted p := by
  intro hdeleted
  obtain ⟨row, hfind, hnone⟩ := h
  obtain ⟨hmem, hid⟩ := mem_of_plugin? hfind
  exact hdeleted row hmem hid hnone

theorem references_eq_zero : d.references p = 0 ↔ d.Unreferenced p := by
  rw [references, List.length_eq_zero_iff, List.filter_eq_nil_iff]
  simp [Unreferenced]

variable {p' : Int} {t : DateTime}

theorem mem_softDelete {row : Plugin} (h : row ∈ (d.softDelete p' t).plugins) :
    (row ∈ d.plugins ∧ row.id ≠ p') ∨ (row.id = p' ∧ row.deletedAt ≠ none) := by
  obtain ⟨old, hold, rfl⟩ := List.mem_map.mp h
  split
  · next hid => exact Or.inr ⟨hid, nofun⟩
  · next hid => exact Or.inl ⟨hold, hid⟩

theorem plugin?_softDelete_ne (hne : p' ≠ p) : (d.softDelete p' t).plugin? p = d.plugin? p := by
  unfold plugin? softDelete
  rw [List.find?_map]
  have hpred : ((fun q : Plugin => decide (q.id = p)) ∘ fun q : Plugin =>
      if q.id = p' then { q with deletedAt := some t, updatedAt := t } else q) =
      fun q : Plugin => decide (q.id = p) := by
    funext q
    simp only [Function.comp_apply]
    split <;> rfl
  rw [hpred]
  cases hfind : d.plugins.find? fun q => decide (q.id = p) with
  | none => rfl
  | some row =>
    obtain ⟨-, hid⟩ := mem_of_plugin? hfind
    rw [Option.map_some, if_neg (by rw [hid]; exact Ne.symm hne)]

theorem Active.softDelete (h : d.Active p) (hne : p' ≠ p) : (d.softDelete p' t).Active p := by
  unfold Active
  rw [plugin?_softDelete_ne hne]
  exact h

theorem Deleted.softDelete (h : d.Deleted p) : (d.softDelete p' t).Deleted p := by
  intro row hrow hid
  rcases mem_softDelete hrow with ⟨hold, -⟩ | ⟨-, hnow⟩
  · exact h row hold hid
  · exact hnow

theorem deleted_softDelete (t : DateTime) : (d.softDelete p t).Deleted p := by
  intro row hrow hid
  rcases mem_softDelete hrow with ⟨-, hne⟩ | ⟨-, hnow⟩
  · exact absurd hid hne
  · exact hnow

theorem Safe.softDelete (h : d.Safe) (hfree : d.Unreferenced p) : (d.softDelete p t).Safe := by
  intro f hf row hrow hbound
  rcases mem_softDelete hrow with ⟨hold, -⟩ | ⟨hid, -⟩
  · exact h f hf row hold hbound
  · rw [hid] at hbound
    exact absurd hbound (hfree f hf)

theorem Safe.insertFunction {f : Function} (h : d.Safe) (hactive : d.Active p)
    (hf : f.pluginId = some p) : (d.apply (.insertFunction f)).Safe := by
  intro g hg row hrow hbound
  rcases List.mem_append.mp hg with hold | hnew
  · exact h g hold row hrow hbound
  · obtain rfl := List.mem_singleton.mp hnew
    have hid : row.id = p := Option.some.inj (hbound.symm.trans hf)
    exact hactive.deletedAt hrow hid

theorem foldl_bindTag (d : BindingTables) (tags : List Tagging) :
    ((tags.map BindingWrite.bindTag).foldl apply d).plugins = d.plugins ∧
      ((tags.map BindingWrite.bindTag).foldl apply d).functions = d.functions := by
  induction tags generalizing d with
  | nil => exact ⟨rfl, rfl⟩
  | cons t rest ih => exact ih (d.apply (.bindTag t))

end BindingTables

/-! ## What a request knows -/

namespace Phase

/-- What a request on plugin `p` has seen and still holds: it has a lock on the
plugin, or nothing undoes it. -/
def Knows (p : Int) (d : BindingTables) : Phase → Prop
  | .locked _ => d.Active p
  | .cleared | .marked _ => d.Active p ∧ d.Unreferenced p
  | .inserted f _ => d.Active p ∧ f.pluginId = some p
  | .committed f | .settled (.created f) => f ∈ d.functions ∧ f.pluginId = some p
  | .settled .deleted => d.Deleted p
  | _ => True

variable {p p' : Int} {d d' : BindingTables} {q : Phase}

theorem Knows.of_tables (h : q.Knows p d) (hplugins : d'.plugins = d.plugins)
    (hfunctions : d'.functions = d.functions) : q.Knows p d' := by
  have hactive : d.Active p → d'.Active p := by
    unfold BindingTables.Active BindingTables.plugin?
    rw [hplugins]
    exact id
  have hfree : d.Unreferenced p → d'.Unreferenced p := by
    unfold BindingTables.Unreferenced
    rw [hfunctions]
    exact id
  have hdeleted : d.Deleted p → d'.Deleted p := by
    unfold BindingTables.Deleted
    rw [hplugins]
    exact id
  cases q with
  | locked mode => exact hactive h
  | cleared => exact ⟨hactive h.1, hfree h.2⟩
  | marked t => exact ⟨hactive h.1, hfree h.2⟩
  | inserted f tags => exact ⟨hactive h.1, h.2⟩
  | committed f => exact ⟨hfunctions ▸ h.1, h.2⟩
  | settled o =>
    cases o with
    | deleted => exact hdeleted h
    | created f => exact ⟨hfunctions ▸ h.1, h.2⟩
    | refused => trivial
    | faulted => trivial
  | idle => trivial
  | begun => trivial
  | rollingBack ls ws failed => trivial

theorem Knows.softDelete {t : DateTime} (h : q.Knows p d)
    (hne : ∀ mode, (p, mode) ∈ q.locks p → p' ≠ p) : q.Knows p (d.softDelete p' t) := by
  cases q with
  | locked mode => exact h.softDelete (hne mode List.mem_cons_self)
  | cleared => exact ⟨h.1.softDelete (hne .exclusive List.mem_cons_self), h.2⟩
  | marked t => exact ⟨h.1.softDelete (hne .exclusive List.mem_cons_self), h.2⟩
  | inserted f tags => exact ⟨h.1.softDelete (hne .shared List.mem_cons_self), h.2⟩
  | committed f => exact h
  | settled o =>
    cases o with
    | deleted => exact BindingTables.Deleted.softDelete h
    | created f => exact h
    | refused => trivial
    | faulted => trivial
  | idle => trivial
  | begun => trivial
  | rollingBack ls ws failed => trivial

/-- A new function of another plugin, or of one the request has not locked
exclusively. -/
theorem Knows.insertFunction {f : Function} (h : q.Knows p d)
    (hne : (p, .exclusive) ∈ q.locks p → f.pluginId ≠ some p) :
    q.Knows p (d.apply (.insertFunction f)) := by
  have hfree : f.pluginId ≠ some p → d.Unreferenced p →
      (d.apply (.insertFunction f)).Unreferenced p := by
    intro hf hold g hg
    rcases List.mem_append.mp hg with hg | hg
    · exact hold g hg
    · rw [List.mem_singleton.mp hg]
      exact hf
  cases q with
  | locked mode => exact h
  | cleared => exact ⟨h.1, hfree (hne List.mem_cons_self) h.2⟩
  | marked t => exact ⟨h.1, hfree (hne List.mem_cons_self) h.2⟩
  | inserted g tags => exact h
  | committed g => exact ⟨List.mem_append_left _ h.1, h.2⟩
  | settled o =>
    cases o with
    | deleted => exact h
    | created g => exact ⟨List.mem_append_left _ h.1, h.2⟩
    | refused => trivial
    | faulted => trivial
  | idle => trivial
  | begun => trivial
  | rollingBack ls ws failed => trivial

end Phase

/-- The ways in which a statement of the `n`-th request changes its phase and the
store. -/
inductive Kind (n : Nat) (r : BindingRequest) (q q' : Phase) (s s' : BindingStore) : Prop
  | read (hlocks : q'.locks r.target = q.locks r.target)
    (hwrites : q'.writes r.target = q.writes r.target)
    (hknows : q.Knows r.target s.data → q'.Knows r.target s.data)
    (hs : s' = s ∨ s' = burnId s)
  | lock (mode : LockMode) (hgrants : s.grants n r.target mode = true)
    (hlocks : q.locks r.target = []) (hlocks' : q'.locks r.target = [(r.target, mode)])
    (hwrites : q'.writes r.target = q.writes r.target) (hknows : q'.Knows r.target s.data)
    (hs : s' = s.lock n r.target mode)
  | write (w : BindingWrite) (hlocks : q'.locks r.target = q.locks r.target)
    (hwrites : q'.writes r.target = q.writes r.target ++ [w])
    (hknows : q.Knows r.target s.data → q'.Knows r.target s.data)
    (hs : s' = s.write n w ∨ s' = (burnId s).write n w)
  | commitDelete (id : Int) (hr : r = .softDelete id) (t : DateTime) (hq : q = .marked t)
    (hq' : q' = .settled .deleted ∨ q' = .rollingBack [] [] true)
    (hs : s' = s.commit BindingTables.apply n)
  | commitInsert (req : CreateMeta) (hr : r = .createCustom req) (f : Function)
    (tags : List Tagging) (hq : q = .inserted f tags)
    (hq' : q' = .committed f ∨ q' = .rollingBack [] [] true)
    (hs : s' = s.commit BindingTables.apply n)
  | rollback (hq' : ∃ o, q' = .settled o ∧ o.good = false) (hs : s' = s.release n)

variable {n : Nat} {r : BindingRequest} {q : Phase} {s s' : BindingStore}

/-- Aborting keeps the locks and the writes. -/
theorem Kind.abort (failed : Bool) (hs : s' = s ∨ s' = burnId s) :
    Kind n r q (q.abort r.target failed) s s' :=
  .read rfl rfl (fun _ => trivial) hs

theorem kind_of_advance {mysql : Mysql} {q' : Phase} {l : BindingStmt} {i : BindingInput}
    (hready : ready mysql l i s = true) (h : q.advance mysql n r l i s = some (q', s')) :
    Kind n r q q' s s' := by
  unfold Phase.advance at h
  split at h
  · -- `BEGIN`
    obtain ⟨rfl, rfl⟩ := Prod.mk.inj (Option.some.inj h)
    split
    · exact .read rfl rfl (fun _ => trivial) (Or.inl rfl)
    · exact .read rfl rfl (fun _ => trivial) (Or.inl rfl)
  · -- the locking read
    split at h
    case isFalse => cases h
    case isTrue hsame =>
      obtain ⟨rfl, rfl, rfl⟩ := hsame
      split at h
      · obtain ⟨rfl, rfl⟩ := Prod.mk.inj (Option.some.inj h)
        exact .abort true (Or.inl rfl)
      · obtain ⟨rfl, rfl⟩ := Prod.mk.inj (Option.some.inj h)
        exact .abort false (Or.inl rfl)
      · next hfault hrow =>
        obtain ⟨rfl, rfl⟩ := Prod.mk.inj (Option.some.inj h)
        have hgrants := hready
        simp only [ready, hfault, Option.isSome_none, Bool.false_or] at hgrants
        split
        · next hactive => exact .lock _ hgrants rfl rfl rfl ⟨_, hrow, hactive⟩ rfl
        · exact .lock _ hgrants rfl rfl rfl trivial rfl
  · -- the count
    split at h
    · obtain ⟨rfl, rfl⟩ := Prod.mk.inj (Option.some.inj h)
      exact .abort true (Or.inl rfl)
    · split at h
      · next hzero =>
        obtain ⟨rfl, rfl⟩ := Prod.mk.inj (Option.some.inj h)
        exact .read rfl rfl (fun hactive => ⟨hactive, BindingTables.references_eq_zero.mp hzero⟩)
          (Or.inl rfl)
      · obtain ⟨rfl, rfl⟩ := Prod.mk.inj (Option.some.inj h)
        exact .abort false (Or.inl rfl)
  · -- the mark
    split at h
    · obtain ⟨rfl, rfl⟩ := Prod.mk.inj (Option.some.inj h)
      exact .abort true (Or.inl rfl)
    · obtain ⟨rfl, rfl⟩ := Prod.mk.inj (Option.some.inj h)
      exact .write _ rfl rfl id (Or.inl rfl)
  · -- the commit of a deletion
    split at h
    · obtain ⟨rfl, rfl⟩ := Prod.mk.inj (Option.some.inj h)
      exact .commitDelete _ rfl _ rfl (Or.inl rfl) rfl
    · split at h
      · obtain ⟨rfl, rfl⟩ := Prod.mk.inj (Option.some.inj h)
        exact .commitDelete _ rfl _ rfl (Or.inr rfl) rfl
      · obtain ⟨rfl, rfl⟩ := Prod.mk.inj (Option.some.inj h)
        exact .abort true (Or.inl rfl)
  · -- the new function
    split at h
    case isFalse => cases h
    case isTrue hsame =>
      split at h
      · obtain ⟨rfl, rfl⟩ := Prod.mk.inj (Option.some.inj h)
        exact .abort true (Or.inl rfl)
      · obtain ⟨rfl, rfl⟩ := Prod.mk.inj (Option.some.inj h)
        exact .abort false (Or.inl rfl)
      · split at h
        · obtain ⟨rfl, rfl⟩ := Prod.mk.inj (Option.some.inj h)
          exact .abort false (Or.inr rfl)
        · obtain ⟨rfl, rfl⟩ := Prod.mk.inj (Option.some.inj h)
          exact .write _ rfl rfl (fun hactive => ⟨hactive, rfl⟩) (Or.inr rfl)
  · -- a tag
    split at h
    · obtain ⟨rfl, rfl⟩ := Prod.mk.inj (Option.some.inj h)
      exact .abort true (Or.inl rfl)
    · split at h
      · obtain ⟨rfl, rfl⟩ := Prod.mk.inj (Option.some.inj h)
        exact .write _ rfl (by simp [Phase.writes]) id (Or.inl rfl)
      · obtain ⟨rfl, rfl⟩ := Prod.mk.inj (Option.some.inj h)
        exact .read rfl rfl id (Or.inl rfl)
  · -- the commit of a function
    split at h
    · obtain ⟨rfl, rfl⟩ := Prod.mk.inj (Option.some.inj h)
      exact .commitInsert _ rfl _ _ rfl (Or.inl rfl) rfl
    · split at h
      · obtain ⟨rfl, rfl⟩ := Prod.mk.inj (Option.some.inj h)
        exact .commitInsert _ rfl _ _ rfl (Or.inr rfl) rfl
      · obtain ⟨rfl, rfl⟩ := Prod.mk.inj (Option.some.inj h)
        exact .abort true (Or.inl rfl)
  · -- the rollback
    obtain ⟨rfl, rfl⟩ := Prod.mk.inj (Option.some.inj h)
    refine .rollback ⟨_, rfl, ?_⟩ rfl
    split <;> rfl
  · -- the answer
    obtain ⟨rfl, rfl⟩ := Prod.mk.inj (Option.some.inj h)
    split
    · exact .read rfl rfl id (Or.inl rfl)
    · exact .read rfl rfl (fun _ => trivial) (Or.inl rfl)
  · cases h

/-! ## The invariant -/

abbrev BindingPool :=
  Pool BindingRequest BindingStmt BindingInput BindingStore (Except AppError (Option Function))

abbrev BindingThread :=
  Thread BindingRequest BindingStmt BindingInput BindingStore (Except AppError (Option Function))

section Invariant

variable (mysql : Mysql)

/-- The phase of a request; a crashed one has lost its session. -/
def phaseOf (th : BindingThread) : Phase :=
  if th.crashed then .settled .faulted else th.phase (session mysql)

/-- The phase of the `j`-th request, if it has been started. -/
def phaseAt (c : BindingPool) (j : Nat) : Phase := (c.threads[j]?.map (phaseOf mysql)).getD .idle

/-- The plugin the `j`-th request is about. -/
def targetAt (c : BindingPool) (j : Nat) : Int :=
  (c.threads[j]?.map fun th => th.req.target).getD 0

/-- The sessions of the store are those of the requests, what the requests know is
true, and no function is bound to a deleted plugin. -/
structure Ledger (c : BindingPool) : Prop where
  numbered : ∀ j (th : BindingThread), c.threads[j]? = some th → th.no = j
  locks : ∀ j, c.store.locksOf j = (phaseAt mysql c j).locks (targetAt c j)
  writes : ∀ j, c.store.writesOf j = (phaseAt mysql c j).writes (targetAt c j)
  knows : ∀ j, (phaseAt mysql c j).Knows (targetAt c j) c.store.data
  compatible : c.store.Compatible
  safe : c.store.data.Safe

variable {mysql} {c : BindingPool} {j : Nat} {th th' : BindingThread}

theorem phaseAt_eq (hth : c.threads[j]? = some th) : phaseAt mysql c j = phaseOf mysql th := by
  simp [phaseAt, hth]

theorem targetAt_eq (hth : c.threads[j]? = some th) : targetAt c j = th.req.target := by
  simp [targetAt, hth]

variable {s : BindingStore}

theorem phaseAt_set_self (hth : c.threads[j]? = some th) :
    phaseAt mysql { threads := c.threads.set j th', store := s } j = phaseOf mysql th' := by
  obtain ⟨hlt, -⟩ := List.getElem?_eq_some_iff.mp hth
  simp [phaseAt, hlt]

variable {k : Nat}

theorem phaseAt_set_ne (hne : k ≠ j) :
    phaseAt mysql { threads := c.threads.set j th', store := s } k = phaseAt mysql c k := by
  simp [phaseAt, List.getElem?_set_ne (Ne.symm hne)]

theorem targetAt_set (hth : c.threads[j]? = some th) (hreq : th'.req = th.req) (k : Nat) :
    targetAt { threads := c.threads.set j th', store := s } k = targetAt c k := by
  by_cases hk : k = j
  · subst hk
    obtain ⟨hlt, hget⟩ := List.getElem?_eq_some_iff.mp hth
    simp [targetAt, hlt, hreq, hget]
  · simp [targetAt, List.getElem?_set_ne (Ne.symm hk)]

/-- A request is replaced and the store changes: what has to be shown. -/
theorem Ledger.set (hL : Ledger mysql c) (hth : c.threads[j]? = some th)
    (hreq : th'.req = th.req) (hno : th'.no = th.no) {s : BindingStore}
    (hlocks : s.locksOf j = (phaseOf mysql th').locks th.req.target)
    (hwrites : s.writesOf j = (phaseOf mysql th').writes th.req.target)
    (hknows : (phaseOf mysql th').Knows th.req.target s.data)
    (hothers : ∀ k, k ≠ j → s.locksOf k = c.store.locksOf k ∧ s.writesOf k = c.store.writesOf k ∧
      (phaseAt mysql c k).Knows (targetAt c k) s.data)
    (hcompatible : s.Compatible) (hsafe : s.data.Safe) :
    Ledger mysql { threads := c.threads.set j th', store := s } := by
  have hphase : ∀ k, k ≠ j →
      phaseAt mysql { threads := c.threads.set j th', store := s } k = phaseAt mysql c k :=
    fun k hk => phaseAt_set_ne hk
  constructor
  · intro k th₁ hth₁
    by_cases hk : k = j
    · subst hk
      obtain ⟨hlt, -⟩ := List.getElem?_eq_some_iff.mp hth
      have heq : th' = th₁ := by simpa [hlt] using hth₁
      rw [← heq, hno]
      exact hL.numbered k th hth
    · rw [List.getElem?_set_ne (Ne.symm hk)] at hth₁
      exact hL.numbered k th₁ hth₁
  · intro k
    rw [targetAt_set hth hreq]
    by_cases hk : k = j
    · subst hk
      rw [phaseAt_set_self hth, targetAt_eq hth]
      exact hlocks
    · rw [hphase k hk, ← hL.locks k]
      exact (hothers k hk).1
  · intro k
    rw [targetAt_set hth hreq]
    by_cases hk : k = j
    · subst hk
      rw [phaseAt_set_self hth, targetAt_eq hth]
      exact hwrites
    · rw [hphase k hk, ← hL.writes k]
      exact (hothers k hk).2.1
  · intro k
    rw [targetAt_set hth hreq]
    by_cases hk : k = j
    · subst hk
      rw [phaseAt_set_self hth, targetAt_eq hth]
      exact hknows
    · rw [hphase k hk]
      exact (hothers k hk).2.2
  · exact hcompatible
  · exact hsafe

variable {q : Phase} {n : Nat}

theorem data_commit {p : Int} (hwrites : s.writesOf n = q.writes p) :
    (s.commit BindingTables.apply n).data = (q.writes p).foldl BindingTables.apply s.data := by
  rw [← hwrites]
  rfl

theorem data_inserted (d : BindingTables) (f : Function) (tags : List Tagging) (p : Int) :
    (((Phase.inserted f tags).writes p).foldl BindingTables.apply d).plugins =
        (d.apply (.insertFunction f)).plugins ∧
      (((Phase.inserted f tags).writes p).foldl BindingTables.apply d).functions =
        (d.apply (.insertFunction f)).functions :=
  BindingTables.foldl_bindTag (d.apply (.insertFunction f)) tags

theorem safe_of_tables {d d' : BindingTables} (h : d.Safe) (hplugins : d'.plugins = d.plugins)
    (hfunctions : d'.functions = d.functions) : d'.Safe := by
  unfold BindingTables.Safe
  rw [hplugins, hfunctions]
  exact h

theorem Ledger.mem_locksOf (hL : Ledger mysql c) (hth : c.threads[j]? = some th) {mode : LockMode}
    (h : (th.req.target, mode) ∈ (phaseOf mysql th).locks th.req.target) :
    (th.req.target, mode) ∈ c.store.locksOf j := by
  rw [hL.locks j, phaseAt_eq hth, targetAt_eq hth]
  exact h

theorem Ledger.commitDelete (hL : Ledger mysql c) (hth : c.threads[j]? = some th) {t : DateTime}
    (hq : phaseOf mysql th = .marked t) (hreq : th'.req = th.req) (hno : th'.no = th.no)
    (hq' : phaseOf mysql th' = .settled .deleted ∨ phaseOf mysql th' = .rollingBack [] [] true) :
    Ledger mysql { threads := c.threads.set j th'
                   store := c.store.commit BindingTables.apply j } := by
  have hknows := hL.knows j
  have hwrites := hL.writes j
  rw [phaseAt_eq hth, targetAt_eq hth, hq] at hknows hwrites
  have hdata : (c.store.commit BindingTables.apply j).data =
      c.store.data.softDelete th.req.target t := data_commit hwrites
  have hexclusive : (th.req.target, .exclusive) ∈ c.store.locksOf j :=
    hL.mem_locksOf hth (by rw [hq]; exact List.mem_cons_self)
  refine hL.set hth hreq hno ?_ ?_ ?_ ?_ ?_ ?_
  · rcases hq' with hq' | hq' <;> simp [hq', Phase.locks]
  · rcases hq' with hq' | hq' <;> simp [hq', Phase.writes]
  · rw [hdata]
    rcases hq' with hq' | hq'
    · rw [hq']
      exact BindingTables.deleted_softDelete t
    · rw [hq']
      trivial
  · intro k hk
    refine ⟨by simp [hk], by simp [hk], ?_⟩
    rw [hdata]
    refine (hL.knows k).softDelete ?_
    -- another request with a lock on this plugin would not be compatible
    intro mode hmem hsame
    rw [← hL.locks k, ← hsame] at hmem
    exact hL.compatible j k _ (Ne.symm hk) hexclusive mode hmem
  · exact hL.compatible.mono fun m => Locking.locksOf_release_subset
  · rw [hdata]
    exact hL.safe.softDelete hknows.2

theorem Ledger.commitInsert (hL : Ledger mysql c) (hth : c.threads[j]? = some th) {f : Function}
    {tags : List Tagging} (hq : phaseOf mysql th = .inserted f tags) (hreq : th'.req = th.req)
    (hno : th'.no = th.no)
    (hq' : phaseOf mysql th' = .committed f ∨ phaseOf mysql th' = .rollingBack [] [] true) :
    Ledger mysql { threads := c.threads.set j th'
                   store := c.store.commit BindingTables.apply j } := by
  have hknows := hL.knows j
  have hwrites := hL.writes j
  rw [phaseAt_eq hth, targetAt_eq hth, hq] at hknows hwrites
  have hdata := data_commit hwrites
  obtain ⟨hplugins, hfunctions⟩ := data_inserted c.store.data f tags th.req.target
  rw [← hdata] at hplugins hfunctions
  have hshared : (th.req.target, .shared) ∈ c.store.locksOf j :=
    hL.mem_locksOf hth (by rw [hq]; exact List.mem_cons_self)
  refine hL.set hth hreq hno ?_ ?_ ?_ ?_ ?_ ?_
  · rcases hq' with hq' | hq' <;> simp [hq', Phase.locks]
  · rcases hq' with hq' | hq' <;> simp [hq', Phase.writes]
  · rcases hq' with hq' | hq'
    · rw [hq']
      refine ⟨?_, hknows.2⟩
      rw [hfunctions]
      exact List.mem_append_right _ List.mem_cons_self
    · rw [hq']
      trivial
  · intro k hk
    refine ⟨by simp [hk], by simp [hk], ?_⟩
    refine ((hL.knows k).insertFunction ?_).of_tables hplugins hfunctions
    -- a request that has locked this plugin exclusively would not be compatible
    intro hmem hsame
    have htarget : targetAt c k = th.req.target :=
      Option.some.inj (hsame.symm.trans hknows.2)
    rw [← hL.locks k, htarget] at hmem
    exact hL.compatible k j _ hk hmem .shared hshared
  · exact hL.compatible.mono fun m => Locking.locksOf_release_subset
  · exact safe_of_tables (hL.safe.insertFunction hknows.1 hknows.2) hplugins hfunctions

variable {s' : BindingStore}

theorem burnId_cases (h : s' = s ∨ s' = burnId s) :
    s'.locks = s.locks ∧ s'.pending = s.pending ∧ s'.data.plugins = s.data.plugins ∧
      s'.data.functions = s.data.functions := by
  rcases h with rfl | rfl
  · exact ⟨rfl, rfl, rfl, rfl⟩
  · exact ⟨rfl, rfl, rfl, rfl⟩

theorem locksOf_congr (h : s'.locks = s.locks) (k : Nat) : s'.locksOf k = s.locksOf k := by
  rw [Locking.locksOf, Locking.locksOf, h]

theorem writesOf_congr (h : s'.pending = s.pending) (k : Nat) : s'.writesOf k = s.writesOf k := by
  rw [Locking.writesOf, Locking.writesOf, h]

/-- A statement of the `j`-th request. -/
theorem Ledger.move (hL : Ledger mysql c) (hth : c.threads[j]? = some th)
    (hreq : th'.req = th.req) (hno : th'.no = th.no)
    (hkind : Kind j th.req (phaseOf mysql th) (phaseOf mysql th') c.store s) :
    Ledger mysql { threads := c.threads.set j th', store := s } := by
  have hlocks := hL.locks j
  have hwrites := hL.writes j
  have hknows := hL.knows j
  rw [phaseAt_eq hth, targetAt_eq hth] at hlocks hwrites hknows
  cases hkind with
  | read hlocks' hwrites' hknows' hs =>
    obtain ⟨hl, hp, hplugins, hfunctions⟩ := burnId_cases hs
    refine hL.set hth hreq hno ?_ ?_ ?_ ?_ ?_ ?_
    · rw [locksOf_congr hl, hlocks, hlocks']
    · rw [writesOf_congr hp, hwrites, hwrites']
    · exact (hknows' hknows).of_tables hplugins hfunctions
    · intro k hk
      exact ⟨locksOf_congr hl k, writesOf_congr hp k, (hL.knows k).of_tables hplugins hfunctions⟩
    · exact hL.compatible.mono fun m _ hmem => locksOf_congr hl m ▸ hmem
    · exact safe_of_tables hL.safe hplugins hfunctions
  | lock mode hgrants hnone hlocks' hwrites' hknows' hs =>
    subst hs
    refine hL.set hth hreq hno ?_ ?_ hknows' ?_ ?_ hL.safe
    · rw [Locking.locksOf_lock_self, hlocks, hnone, hlocks']
      rfl
    · rw [Locking.writesOf_lock, hwrites, hwrites']
    · intro k hk
      exact ⟨Locking.locksOf_lock_ne hk, rfl, hL.knows k⟩
    · exact hL.compatible.lock hgrants
  | write w hlocks' hwrites' hknows' hs =>
    -- with or without the id that is used up, the write is all that is new
    obtain ⟨s₀, hs₀, rfl⟩ : ∃ s₀, (s₀ = c.store ∨ s₀ = burnId c.store) ∧ s = s₀.write j w := by
      rcases hs with hs | hs
      · exact ⟨_, Or.inl rfl, hs⟩
      · exact ⟨_, Or.inr rfl, hs⟩
    obtain ⟨hl, hp, hplugins, hfunctions⟩ := burnId_cases hs₀
    refine hL.set hth hreq hno ?_ ?_ ?_ ?_ ?_ ?_
    · rw [Locking.locksOf_write, locksOf_congr hl, hlocks, hlocks']
    · rw [Locking.writesOf_write_self, writesOf_congr hp, hwrites, hwrites']
    · exact (hknows' hknows).of_tables hplugins hfunctions
    · intro k hk
      refine ⟨locksOf_congr hl k, ?_, (hL.knows k).of_tables hplugins hfunctions⟩
      rw [Locking.writesOf_write_ne hk, writesOf_congr hp]
    · exact hL.compatible.mono fun m _ hmem => locksOf_congr hl m ▸ hmem
    · exact safe_of_tables hL.safe hplugins hfunctions
  | commitDelete id hr t hq hq' hs =>
    subst hs
    exact hL.commitDelete hth hq hreq hno hq'
  | commitInsert req hr f tags hq hq' hs =>
    subst hs
    exact hL.commitInsert hth hq hreq hno hq'
  | rollback hq' hs =>
    subst hs
    obtain ⟨o, hq', hbad⟩ := hq'
    refine hL.set hth hreq hno ?_ ?_ ?_ ?_ ?_ hL.safe
    · rw [Locking.locksOf_release_self, hq']
      rfl
    · rw [Locking.writesOf_release_self, hq']
      rfl
    · rw [hq']
      cases o with
      | deleted => cases hbad
      | created f => cases hbad
      | refused => trivial
      | faulted => trivial
    · intro k hk
      exact ⟨Locking.locksOf_release_ne hk, Locking.writesOf_release_ne hk, hL.knows k⟩
    · exact hL.compatible.mono fun m => Locking.locksOf_release_subset

/-- The `j`-th request crashes. -/
theorem Ledger.crash (hL : Ledger mysql c) (hth : c.threads[j]? = some th) :
    Ledger mysql { threads := c.threads.set j { th with crashed := true }
                   store := c.store.release j } := by
  have hphase : phaseOf mysql { th with crashed := true } = .settled .faulted := if_pos rfl
  refine hL.set hth ?_ ?_ ?_ ?_ ?_ ?_ ?_ hL.safe
  · rfl
  · rfl
  · rw [Locking.locksOf_release_self, hphase]
    rfl
  · rw [Locking.writesOf_release_self, hphase]
    rfl
  · rw [hphase]
    trivial
  · intro k hk
    exact ⟨Locking.locksOf_release_ne hk, Locking.writesOf_release_ne hk, hL.knows k⟩
  · exact hL.compatible.mono fun m => Locking.locksOf_release_subset

theorem phaseAt_start (hidle : phaseOf mysql th = .idle) (k : Nat) :
    phaseAt mysql { c with threads := c.threads ++ [th] } k = phaseAt mysql c k := by
  unfold phaseAt
  dsimp only
  rcases Nat.lt_trichotomy k c.threads.length with hlt | heq | hgt
  · rw [List.getElem?_append_left hlt]
  · rw [heq, List.getElem?_append_right (Nat.le_refl _), Nat.sub_self]
    simp [hidle]
  · have hnone : (c.threads ++ [th])[k]? = none := by
      refine List.getElem?_eq_none ?_
      rw [List.length_append, List.length_singleton]
      omega
    rw [hnone, List.getElem?_eq_none (Nat.le_of_lt hgt)]

theorem targetAt_start (hlt : k < c.threads.length) :
    targetAt { c with threads := c.threads ++ [th] } k = targetAt c k := by
  simp [targetAt, List.getElem?_append_left hlt]

theorem phaseAt_of_le (hle : c.threads.length ≤ k) : phaseAt mysql c k = .idle := by
  simp [phaseAt, List.getElem?_eq_none hle]

/-- A request arrives. -/
theorem Ledger.start (hL : Ledger mysql c) (hidle : phaseOf mysql th = .idle)
    (hno : th.no = c.threads.length) :
    Ledger mysql { c with threads := c.threads ++ [th] } := by
  constructor
  · intro k th₁ hth₁
    rcases Nat.lt_or_ge k c.threads.length with hlt | hge
    · rw [List.getElem?_append_left hlt] at hth₁
      exact hL.numbered k th₁ hth₁
    · rw [List.getElem?_append_right hge] at hth₁
      obtain ⟨hlast, hget⟩ := List.getElem?_eq_some_iff.mp hth₁
      have hk : k = c.threads.length := by
        rw [List.length_singleton] at hlast
        omega
      rw [← hget]
      simp [hno, hk]
  · intro k
    rw [phaseAt_start hidle]
    rcases Nat.lt_or_ge k c.threads.length with hlt | hge
    · rw [targetAt_start hlt]
      exact hL.locks k
    · have h := hL.locks k
      rw [phaseAt_of_le hge] at h ⊢
      exact h
  · intro k
    rw [phaseAt_start hidle]
    rcases Nat.lt_or_ge k c.threads.length with hlt | hge
    · rw [targetAt_start hlt]
      exact hL.writes k
    · have h := hL.writes k
      rw [phaseAt_of_le hge] at h ⊢
      exact h
  · intro k
    rw [phaseAt_start hidle]
    rcases Nat.lt_or_ge k c.threads.length with hlt | hge
    · rw [targetAt_start hlt]
      exact hL.knows k
    · rw [phaseAt_of_le hge]
      trivial
  · exact hL.compatible
  · exact hL.safe

theorem advance_of_allows {r : BindingRequest} {l : BindingStmt} {i : BindingInput}
    (h : (session mysql n r).allows q l i s s') :
    q.advance mysql n r l i s = some ((session mysql n r).next q l i s, s') := by
  obtain ⟨⟨q', s''⟩, hadvance, rfl⟩ := Option.map_eq_some_iff.mp h
  show _ = some (((q.advance mysql n r l i s).map Prod.fst).getD q, s'')
  rw [hadvance]
  rfl

theorem phaseOf_live (hlive : th.crashed = false) : phaseOf mysql th = th.phase (session mysql) :=
  if_neg (by simp [hlive])

theorem phaseOf_advance (hlive : th.crashed = false) (l : BindingStmt) (i : BindingInput)
    (s : BindingStore) (next : Prog BindingStmt BindingInput BindingStore _) :
    phaseOf mysql (System.advance th l i s next) =
      (session mysql th.no th.req).next (phaseOf mysql th) l i s := by
  rw [phaseOf_live hlive, ← phase_advance (session mysql) th l i s next]
  exact phaseOf_live hlive

end Invariant

/-- **One step.** Whatever happens, the ledger is kept. -/
theorem ledger_step {cfg : BindingConfig} {c : BindingPool}
    {a : Act BindingRequest BindingInput Empty}
    (hobey : Obeys (session cfg.mysql) (fun _ r => Ends r) c) (hL : Ledger cfg.mysql c) :
    Ledger cfg.mysql ((bindings cfg).step c a) := by
  rcases step_cases (bindings cfg) hobey a with h | ⟨r, rfl, h⟩ |
    ⟨j, i, th, l, w, n, rfl, hth, hlive, hprog, hready, hallows, h⟩ | ⟨j, th, rfl, hth, h⟩ | ⟨e, -⟩
  · rw [h]
    exact hL
  · rw [h]
    exact hL.start rfl rfl
  · rw [h]
    rw [← phaseOf_live hlive] at hallows
    have hadvance := advance_of_allows hallows
    rw [← phaseOf_advance hlive l i c.store (n i c.store)] at hadvance
    have hkind := kind_of_advance hready hadvance
    rw [hL.numbered j th hth] at hkind
    refine hL.move hth ?_ ?_ hkind
    · rfl
    · rfl
  · rw [h]
    exact hL.crash hth
  · exact e.elim

end HiveClaw.PluginBinding
