import Mathlib.Data.List.Induction
import Mathlib.Data.List.Infix
import Chiptune.Host
import Chiptune.Number.Word
/-!
# What a recorder keeps

A recorder is called and cleared in any order. Of the calls since the last clear it has the first ones, as many
as it can hold, and the number of the others: `Records` says so, a call keeps it (`Records.call`), and so does
a run of calls (`Records.operate`). What came before a clear is forgotten (`operate_of_sinceClear`).

Main statement `drops_nothing_uncounted`.
-/
namespace Chiptune.Recorder

/-! ## Calls and clears -/

/-- What is done to a recorder. -/
inductive Operation where
  | call (c : HostCall)
  | clear
deriving DecidableEq

variable {capacity : Nat} {r : Recorder capacity} {ops : List Operation} {calls : List HostCall}

/-- The recorder after an operation. -/
def Operation.apply (r : Recorder capacity) : Operation → Recorder capacity
  | call c => Host.call r c
  | clear => r.clear

/-- The recorder after operations, the first one first. -/
def operate (r : Recorder capacity) (ops : List Operation) : Recorder capacity := ops.foldl Operation.apply r

/-- These are the calls since the last clear, or all calls if there was none. -/
def SinceClear (ops : List Operation) (calls : List HostCall) : Prop :=
  ∃ earlier, ops = earlier ++ calls.map .call ∧ (earlier = [] ∨ ∃ first, earlier = first ++ [.clear])

theorem operate_append (r : Recorder capacity) (ops more : List Operation) :
    operate r (ops ++ more) = operate (operate r ops) more := List.foldl_append

theorem operate_clear (r : Recorder capacity) (ops : List Operation) : operate r (ops ++ [.clear]) = new := by
  rw [operate_append]
  rfl

/-- Every run ends in its calls since the last clear. -/
theorem exists_sinceClear (ops : List Operation) : ∃ calls, SinceClear ops calls := by
  induction ops using List.reverseRecOn with
  | nil => exact ⟨[], [], rfl, .inl rfl⟩
  | append_singleton ops op ih =>
    cases op with
    | clear => exact ⟨[], ops ++ [.clear], by simp, .inr ⟨ops, rfl⟩⟩
    | call c =>
      obtain ⟨calls, earlier, rfl, hearlier⟩ := ih
      exact ⟨calls ++ [c], earlier, by simp, hearlier⟩

/-- A recorder does not remember what came before the last clear. -/
theorem operate_of_sinceClear (h : SinceClear ops calls) :
    operate (new : Recorder capacity) ops = operate new (calls.map .call) := by
  obtain ⟨earlier, rfl, rfl | ⟨first, rfl⟩⟩ := h
  · rfl
  · rw [operate_append, operate_clear]

theorem SinceClear.length_le (h : SinceClear ops calls) : calls.length ≤ ops.length := by
  obtain ⟨earlier, rfl, -⟩ := h
  simp

/-! ## Calls and the number of those dropped -/

/-- The recorder has the first of these calls and counts the others. -/
structure Records (r : Recorder capacity) (calls : List HostCall) : Prop where
  kept : r.calls = calls.take capacity
  counted : r.dropped = calls.length - capacity

theorem records_new : Records (new : Recorder capacity) [] := ⟨List.take_nil.symm, (Nat.zero_sub capacity).symm⟩

theorem calls_push (r : Recorder capacity) (c : HostCall) :
    (r.push c).calls = if r.calls.length < capacity then r.calls ++ [c] else r.calls := by
  unfold push
  split <;> rfl

theorem dropped_push (r : Recorder capacity) (c : HostCall) :
    (r.push c).dropped = if r.calls.length < capacity then r.dropped else r.dropped + 1 := by
  unfold push
  split <;> rfl

/-- A call finds room until there are as many as can be held, and is counted from then on. -/
theorem Records.call (h : r.Records calls) (c : HostCall) : (Host.call r c).Records (calls ++ [c]) := by
  have hlength : r.calls.length = min capacity calls.length := by rw [h.kept, List.length_take]
  have hkept : (r.push c).calls = (calls ++ [c]).take capacity := by
    rw [calls_push]
    split
    -- While there is room, all calls are there.
    · rw [h.kept, List.take_of_length_le (by omega), List.take_of_length_le (by simp; omega)]
    · rw [h.kept, List.take_append_of_le_length (by omega)]
  have hcounted : (r.push c).dropped = (calls ++ [c]).length - capacity := by
    rw [dropped_push, h.counted, List.length_append, List.length_singleton]
    split <;> omega
  exact ⟨hkept, hcounted⟩

/-- **Calls in a row are kept as far as there is room.** -/
theorem Records.operate (h : r.Records calls) (more : List HostCall) :
    (r.operate (more.map .call)).Records (calls ++ more) := by
  induction more generalizing r calls with
  | nil => rwa [List.append_nil]
  | cons c more ih =>
    have hrest := ih (h.call c)
    rwa [List.append_assoc] at hrest

/-- **After any run a recorder has the first calls since the last clear** and counts the others. -/
theorem records_of_sinceClear (h : SinceClear ops calls) :
    Records (operate (new : Recorder capacity) ops) calls := by
  rw [operate_of_sinceClear h]
  exact records_new.operate calls

/-- What is recorded stays in front when more calls come. -/
theorem Records.calls_prefix (h : r.Records calls) (more : List HostCall) :
    r.calls <+: (r.operate (more.map .call)).calls := by
  rw [(h.operate more).kept, h.kept]
  exact List.IsPrefix.take (List.prefix_append calls more) capacity

/-- **A recorder drops nothing uncounted.** After any run of calls and clears from a new recorder, take the
calls since the last clear. The first of them, as many as the recorder can hold, are recorded in order, the last
of these is the last call that it tells, and the count of dropped calls is the number of all others. So the
recorded and the dropped calls are all calls; nothing that is recorded is ever changed or moved by more calls;
and a clear makes the recorder new. The count stays within 64 bits on the whole way. -/
theorem drops_nothing_uncounted (capacity : Nat) (ops : List Operation) (hops : ops.length < word64Limit) :
    (∀ done, done <+: ops → (operate (new : Recorder capacity) done).dropped < word64Limit) ∧
    operate new (ops ++ [.clear]) = (new : Recorder capacity) ∧
    (∃ calls, SinceClear ops calls) ∧
    ∀ calls, SinceClear ops calls →
      let r : Recorder capacity := operate new ops
      let kept := min calls.length capacity
      r.calls = calls.take kept ∧ r.size = kept ∧ r.dropped = calls.length - kept ∧
      r.last? = (if kept = 0 then none else calls[kept - 1]?) ∧ (r.isEmpty = true ↔ kept = 0) ∧
      r.size + r.dropped = calls.length ∧
      ∀ more : List HostCall, r.calls <+: (operate r (more.map .call)).calls := by
  refine ⟨fun done hdone => ?_, operate_clear _ ops, exists_sinceClear ops, fun calls hcalls => ?_⟩
  · -- What has been done so far is a run of its own.
    obtain ⟨calls, hcalls⟩ := exists_sinceClear done
    have hrecords : Records (operate (new : Recorder capacity) done) calls := records_of_sinceClear hcalls
    have hcount := hrecords.counted
    have hlength := Nat.le_trans hcalls.length_le hdone.length_le
    omega
  · intro r kept
    have hrecords : r.Records calls := records_of_sinceClear hcalls
    have htake : r.calls = calls.take kept := by rw [hrecords.kept, List.take_eq_take_iff]; omega
    have hsize : r.size = kept := by rw [size, htake, List.length_take]; omega
    have hdropped : r.dropped = calls.length - kept := by rw [hrecords.counted]; omega
    refine ⟨htake, hsize, hdropped, ?_, ?_, by omega, hrecords.calls_prefix⟩
    · rw [last?, htake, List.getLast?_take]
      split
      · rfl
      · rw [List.getElem?_eq_getElem (by omega)]
        rfl
    · rw [isEmpty, List.isEmpty_iff_length_eq_zero]
      exact Eq.congr_left hsize

/-- Room for two calls: a third one is dropped, and after a clear two of four are kept again. -/
theorem drops_nothing_uncounted_cleared :
    let c (frequency : UInt32) : HostCall := ⟨frequency, 0, 100, 8⟩
    let before : List Operation := [.call (c 65), .call (c 70), .call (c 75)]
    let since := [c 80, c 85, c 90, c 95]
    let ops := before ++ [.clear] ++ since.map .call
    let r : Recorder 2 := operate new ops
    ops.length < word64Limit ∧ SinceClear ops since ∧
      r.calls = [c 80, c 85] ∧ r.dropped = 2 ∧ r.last? = some (c 85) ∧
      (operate (new : Recorder 2) before).dropped < word64Limit := by
  intro c before since ops r
  have hops : ops.length < word64Limit := by decide
  have hsince : SinceClear ops since := ⟨before ++ [.clear], rfl, .inr ⟨before, rfl⟩⟩
  obtain ⟨hfits, -, -, hrun⟩ := drops_nothing_uncounted 2 ops hops
  obtain ⟨hcalls, -, hdropped, hlast, -⟩ := hrun since hsince
  have hbefore : before <+: ops := ⟨[.clear] ++ since.map .call, rfl⟩
  exact ⟨hops, hsince, hcalls, hdropped, hlast, hfits before hbefore⟩

end Chiptune.Recorder
