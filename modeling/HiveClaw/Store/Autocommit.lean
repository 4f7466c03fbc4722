import HiveClaw.Lib.Pool
import HiveClaw.Store.Service

/-!
# Single statements

Functions that open no transaction: every SQL statement is committed on its own,
and the statements of other requests may stand between any two of them. The input
of a statement is the driver's error, if the server fails.
-/

namespace HiveClaw

open Lib

/-- A function over stores `σ` whose statements are labelled in `ℓ`. -/
abbrev Autocommit (ℓ σ ε α : Type) := ExceptT ε (Prog ℓ (Option String) σ) α

namespace Autocommit

variable {ℓ σ ε ε' α β : Type}

def query (l : ℓ) (read : σ → α) : Autocommit ℓ σ String α :=
  ExceptT.mk <| Prog.read l fun fault s =>
    match fault with
    | some e => .error e
    | none => .ok (read s)

/-- A statement that writes; it leaves the store alone when it fails. -/
def execute (l : ℓ) (write : σ → Except String (α × σ)) : Autocommit ℓ σ String α :=
  ExceptT.mk <| Prog.modify l fun fault s =>
    match fault with
    | some e => (.error e, s)
    | none =>
      match write s with
      | .error e => (.error e, s)
      | .ok (a, s') => (.ok a, s')

/-- A step in the memory of the process. -/
def inMemory (l : ℓ) (write : σ → σ) : Autocommit ℓ σ ε Unit :=
  ExceptT.lift (Prog.modify l fun _ s => ((), write s))

-- `match r.await { Ok(..) => .., Err(..) => .. }`
def attempt (m : Autocommit ℓ σ ε α) : Autocommit ℓ σ ε' (Except ε α) := ExceptT.lift m.run

-- `if c { return Err(e) }`
def failIf (c : Prop) [Decidable c] (e : ε) : Autocommit ℓ σ ε Unit :=
  if c then throw e else pure ()

-- `opt.ok_or_else(|| e)?`
def okOr (o : Option α) (e : ε) : Autocommit ℓ σ ε α :=
  match o with
  | some a => pure a
  | none => throw e

/-- The driver's error of `fetch_one`. -/
def noRows : String := "no rows returned by a query that expected to return at least one row"

-- `fetch_one`
def fetchOne (l : ℓ) (read : σ → Option α) : Autocommit ℓ σ String α := do
  let row ← query l read
  okOr row noRows

/-! ## Keeping to a protocol -/

section Follows

variable {φ : Type} {A : Protocol φ ℓ (Option String) σ} {q : φ}

variable {l : ℓ} {E : φ → Except String α → Prop}

theorem follows_query {read : σ → α} (hallows : ∀ fault s, A.allows q l fault s s)
    (hfault : ∀ e s, E (A.next q l (some e) s) (.error e))
    (hok : ∀ s, E (A.next q l none s) (.ok (read s))) : Follows A E q (query l read).run := by
  refine follows_read_iff.mpr ⟨hallows, fun fault s => ?_⟩
  cases fault with
  | some e => exact hfault e s
  | none => exact hok s

theorem follows_execute {write : σ → Except String (α × σ)}
    (hfault : ∀ e s, A.allows q l (some e) s s ∧ E (A.next q l (some e) s) (.error e))
    (herr : ∀ e s, write s = .error e → A.allows q l none s s ∧ E (A.next q l none s) (.error e))
    (hok : ∀ a s s', write s = .ok (a, s') →
      A.allows q l none s s' ∧ E (A.next q l none s) (.ok a)) :
    Follows A E q (execute l write).run := by
  refine follows_modify_iff.mpr ⟨fun fault s => ?_, fun fault s => ?_⟩
  · cases fault with
    | some e => exact (hfault e s).1
    | none =>
      dsimp only
      cases hw : write s with
      | error e => exact (herr e s hw).1
      | ok r => exact (hok r.1 s r.2 hw).1
  · cases fault with
    | some e => exact (hfault e s).2
    | none =>
      dsimp only
      cases hw : write s with
      | error e => exact (herr e s hw).2
      | ok r => exact (hok r.1 s r.2 hw).2

theorem follows_inMemory_bind {write : σ → σ} {f : Unit → Autocommit ℓ σ ε α}
    {E : φ → Except ε α → Prop} (hallows : ∀ fault s, A.allows q l fault s (write s))
    (hf : ∀ fault s, Follows A E (A.next q l fault s) (f ()).run) :
    Follows A E q (inMemory l write >>= f).run :=
  .stmt hallows hf

theorem follows_attempt_bind {m : Autocommit ℓ σ ε α} {f : Except ε α → Autocommit ℓ σ ε' β}
    {E : φ → Except ε α → Prop} {E' : φ → Except ε' β → Prop} (hm : Follows A E q m.run)
    (hf : ∀ q r, E q r → Follows A E' q (f r).run) : Follows A E' q (attempt m >>= f).run := by
  have hlift : Follows A (fun q r => ∃ a, r = .ok a ∧ E q a) q
      (attempt m : Autocommit ℓ σ ε' (Except ε α)).run :=
    Follows.lift (hm.mono fun q a h => ⟨a, rfl, h⟩)
  refine hlift.bindE ?_ ?_
  · rintro q e ⟨a, ha, -⟩
    cases ha
  · rintro q r ⟨a, ha, h⟩
    rw [Except.ok.inj ha]
    exact hf q a h

theorem stays_failIf (c : Prop) [Decidable c] (e : ε) :
    Follows A (fun q' _ => q' = q) q (failIf c e : Autocommit ℓ σ ε Unit).run := by
  unfold failIf
  split
  · exact .done rfl
  · exact .done rfl

theorem stays_okOr (o : Option α) (e : ε) :
    Follows A (fun q' _ => q' = q) q (okOr o e : Autocommit ℓ σ ε α).run := by
  cases o with
  | none => exact .done rfl
  | some a => exact .done rfl

/-- A read that does not concern the protocol. -/
theorem stays_query {read : σ → α} (hallows : ∀ fault s, A.allows q l fault s s)
    (hnext : ∀ fault s, A.next q l fault s = q) :
    Follows A (fun q' _ => q' = q) q (query l read).run :=
  follows_query hallows (fun e s => hnext (some e) s) fun s => hnext none s

theorem stays_fetchOne {read : σ → Option α} (hallows : ∀ fault s, A.allows q l fault s s)
    (hnext : ∀ fault s, A.next q l fault s = q) :
    Follows A (fun q' _ => q' = q) q (fetchOne l read).run :=
  (stays_query hallows hnext).stay_bind (fun _ => rfl) fun o => stays_okOr o noRows

end Follows

end Autocommit

end HiveClaw
