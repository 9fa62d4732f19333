import Mathlib.Data.List.Induction
import Mathlib.Data.List.Nodup
import MemoryLedger.Heap

/-!
# The calls of a heap

What a sequence of calls granted, what it gave back, and what it still owes. A sequence of calls is
`Orderly` if each call that names a region names one that is outstanding at that time: nothing is
resized or released before it was granted or after it was released, so nothing is released twice.
-/

namespace MemoryLedger

namespace Heap

/-- The region that a call was granted. -/
def Call.granted : Call → Option Nat
  | .allocate _ granted => granted
  | .reallocate .. | .release _ => none

/-- The region that a call gave back. -/
def Call.released : Call → Option Nat
  | .release id => some id
  | .allocate .. | .reallocate .. => none

/-- The region that a call names. -/
def Call.target : Call → Option Nat
  | .reallocate id .. | .release id => some id
  | .allocate .. => none

/-- The regions that were granted, in order. -/
def grantedBy (calls : List Call) : List Nat := calls.filterMap Call.granted

/-- The regions that were released, in order. -/
def releasedBy (calls : List Call) : List Nat := calls.filterMap Call.released

/-- The region was granted and not yet released. -/
def Outstanding (calls : List Call) (id : Nat) : Prop :=
  id ∈ grantedBy calls ∧ id ∉ releasedBy calls

/-- Each call that names a region names one that the calls before it left outstanding. -/
def Orderly (calls : List Call) : Prop :=
  ∀ before call after id, calls = before ++ call :: after → call.target = some id →
    Outstanding before id

variable {calls : List Call} {call : Call} {id other : Nat}

/-! ### One call more -/

lemma grantedBy_append (calls more : List Call) :
    grantedBy (calls ++ more) = grantedBy calls ++ grantedBy more :=
  List.filterMap_append

lemma releasedBy_append (calls more : List Call) :
    releasedBy (calls ++ more) = releasedBy calls ++ releasedBy more :=
  List.filterMap_append

lemma Orderly.append_call (h : Orderly calls)
    (hcall : ∀ id, call.target = some id → Outstanding calls id) : Orderly (calls ++ [call]) := by
  intro before call' after id heq htarget
  rcases List.eq_nil_or_concat after with rfl | ⟨after, last, rfl⟩
  · obtain ⟨rfl, hlast⟩ := List.append_inj' heq rfl
    cases hlast
    exact hcall id htarget
  · rw [List.concat_eq_append, ← List.cons_append, ← List.append_assoc] at heq
    exact h before call' after id (List.append_inj' heq rfl).1 htarget

lemma Orderly.of_append {more : List Call} (h : Orderly (calls ++ more)) : Orderly calls := by
  intro before call after id heq htarget
  refine h before call (after ++ more) id ?_ htarget
  rw [heq, List.append_assoc, List.cons_append]

/-- What a call gives back is what it names. -/
lemma Call.target_of_released (h : call.released = some id) : call.target = some id := by
  cases call with
  | release => exact h
  | allocate | reallocate => cases h

lemma Orderly.released_granted (h : Orderly calls) (hid : id ∈ releasedBy calls) :
    id ∈ grantedBy calls := by
  obtain ⟨call, hmem, hcall⟩ := List.mem_filterMap.mp hid
  obtain ⟨before, after, rfl⟩ := List.append_of_mem hmem
  rw [grantedBy_append]
  exact List.mem_append_left _ (h before call after id rfl (Call.target_of_released hcall)).1

/-- Nothing is released twice. -/
theorem Orderly.released_nodup (h : Orderly calls) : (releasedBy calls).Nodup := by
  induction calls using List.reverseRecOn with
  | nil => exact List.nodup_nil
  | append_singleton calls call ih =>
    rw [releasedBy_append]
    cases hcall : call.released with
    | none => simpa [releasedBy, hcall] using ih h.of_append
    | some id =>
      have hnot := (h calls call [] id rfl (Call.target_of_released hcall)).2
      have hlast : releasedBy [call] = [id] := by simp [releasedBy, hcall]
      rw [hlast, ← List.concat_eq_append]
      exact (ih h.of_append).concat hnot

/-! ### What is outstanding after one call more -/

lemma outstanding_append_of_none (hgranted : call.granted = none)
    (hreleased : call.released = none) :
    Outstanding (calls ++ [call]) other ↔ Outstanding calls other := by
  simp [Outstanding, grantedBy, releasedBy, hgranted, hreleased]

lemma outstanding_append_allocate {size : UInt64} (hid : id ∉ releasedBy calls) :
    Outstanding (calls ++ [.allocate size (some id)]) other ↔
      other = id ∨ Outstanding calls other := by
  have hgranted : grantedBy [.allocate size (some id)] = [id] := rfl
  have hreleased : releasedBy [.allocate size (some id)] = [] := rfl
  rw [Outstanding, Outstanding, grantedBy_append, releasedBy_append, hgranted, hreleased,
    List.append_nil, List.mem_append, List.mem_singleton]
  constructor
  · rintro ⟨hmem | rfl, hnot⟩
    · exact .inr ⟨hmem, hnot⟩
    · exact .inl rfl
  · rintro (rfl | ⟨hmem, hnot⟩)
    · exact ⟨.inr rfl, hid⟩
    · exact ⟨.inl hmem, hnot⟩

lemma outstanding_append_release :
    Outstanding (calls ++ [.release id]) other ↔ Outstanding calls other ∧ other ≠ id := by
  have hgranted : grantedBy [.release id] = [] := rfl
  have hreleased : releasedBy [.release id] = [id] := rfl
  rw [Outstanding, Outstanding, grantedBy_append, releasedBy_append, hgranted, hreleased,
    List.append_nil, List.mem_append, List.mem_singleton, not_or, and_assoc]

/-! ### What each request does to the heap -/

lemma regions_setRegion_eq_update (h : Heap) (id : Nat) (region : Option Region) :
    (h.setRegion id region).regions = Function.update h.regions id region := by
  funext i
  rw [regions_setRegion, Function.update_apply]

lemma regions_release (h : Heap) (id : Nat) :
    (h.release id).regions = Function.update h.regions id none :=
  regions_setRegion_eq_update h id none

lemma regions_update (h : Heap) (id : Nat) (f : Region → Region) :
    (h.update id f).regions = Function.update h.regions id ((h.regions id).map f) :=
  regions_setRegion_eq_update h id _

/-- Releasing regions one after the other is so many calls of the heap. -/
lemma calls_releaseAll (h : Heap) (payloads : List Nat) :
    (payloads.foldl release h).calls.toList = h.calls.toList ++ payloads.map .release := by
  induction payloads generalizing h with
  | nil => rw [List.foldl_nil, List.map_nil, List.append_nil]
  | cons id payloads ih =>
    rw [List.foldl_cons, ih, release, calls_record, calls_setRegion, Array.toList_push,
      List.append_assoc, List.map_cons, List.singleton_append]

/-- A request for a new region succeeds if and only if the heap grants it. -/
lemma isSome_allocate (h : Heap) (size : UInt64) : (h.allocate size).1.isSome = h.grants size := by
  rw [allocate]
  split
  next hgrants => exact hgrants.symm
  next hgrants => exact (eq_false_of_ne_true hgrants).symm

lemma fst_reallocate (h : Heap) (id : Nat) (size : UInt64) :
    (h.reallocate id size).1 = h.grants size := by
  rw [reallocate]
  split
  next hgrants => exact hgrants.symm
  next hgrants => exact (eq_false_of_ne_true hgrants).symm

variable {h h' : Heap} {size : UInt64}

lemma allocate_eq_none (heq : h.allocate size = (none, h')) :
    h'.calls = h.calls.push (.allocate size none) ∧ h'.granted = h.granted ∧
      h'.regions = h.regions := by
  rw [allocate] at heq
  split at heq
  next => cases heq
  next =>
    cases heq
    exact ⟨rfl, rfl, rfl⟩

/-- A region that is granted is new and of the size that was asked for. -/
lemma allocate_eq_some (heq : h.allocate size = (some id, h')) :
    id = h.granted + 1 ∧ h'.calls = h.calls.push (.allocate size (some id)) ∧
      h'.granted = id ∧
      ∃ bytes, h'.regions = Function.update h.regions id (some ⟨size.toNat, bytes⟩) := by
  rw [allocate] at heq
  split at heq
  next =>
    cases heq
    exact ⟨rfl, rfl, rfl, h.fresh h.requests, regions_setRegion_eq_update _ _ _⟩
  next => cases heq

lemma reallocate_eq_false (heq : h.reallocate id size = (false, h')) :
    h'.calls = h.calls.push (.reallocate id size false) ∧ h'.granted = h.granted ∧
      h'.regions = h.regions := by
  rw [reallocate] at heq
  split at heq
  next => cases heq
  next =>
    cases heq
    exact ⟨rfl, rfl, rfl⟩

lemma reallocate_eq_true (heq : h.reallocate id size = (true, h')) :
    h'.calls = h.calls.push (.reallocate id size true) ∧ h'.granted = h.granted ∧
      ∃ tail, h'.regions =
        Function.update h.regions id ((h.regions id).map fun r => r.resize size.toNat tail) := by
  rw [reallocate] at heq
  split at heq
  next =>
    cases heq
    exact ⟨rfl, rfl, h.fresh h.requests, regions_setRegion_eq_update _ _ _⟩
  next => cases heq

end Heap

end MemoryLedger
