import ExecutionProvider.Foundation.Table
import ExecutionProvider.Protocol.Messages

/-!
# The receipt store of a host

A host keeps a receipt for every request it has accepted, from its acceptance until the gateway
acknowledges the response. A receipt without a response reserves the largest possible response;
a receipt with a response occupies its length.

## Main definitions

* `Receipts.accept`, `Receipts.complete`, `Receipts.acknowledge`: the life of a receipt.
* `Receipts.reserved`: the bytes that the receipts reserve or occupy.
* `Receipts.Accounted`: the bytes are counted right.

## Main results

* `Receipts.accept_eq_new_iff`: when a request is admitted.
* `Accounted.insert`, `Accounted.complete`, `Accounted.acknowledge`: every operation keeps the
  count right.
-/

namespace ExecutionProvider.Daemon

open Protocol (maxFrameBytes)

/-- The largest number of receipts. -/
def maxReceipts : ℕ := 128

/-- The largest number of bytes that the receipts may reserve or occupy. -/
def maxBytes : ℕ := 256 * 1024 * 1024

/-- What the receipt store says about a request. -/
inductive Admission
  | new
  | existing
  | conflict
  | full
deriving DecidableEq, Repr

/-- A receipt: the digest of its request and, once there is one, the text of the response. -/
structure Receipt (φ τ : Type) where
  fingerprint : φ
  response : Option τ

/-- The receipts of the requests that were accepted and not yet acknowledged, and the bytes they
reserve or occupy. -/
structure Receipts (φ τ : Type) where
  entries : Table String (Receipt φ τ)
  bytes : ℕ

namespace Receipts

variable {φ τ : Type}

/-- The empty store of a starting host. -/
def empty : Receipts φ τ := ⟨∅, 0⟩

/-- Whether there is a receipt for a request. -/
def contains (r : Receipts φ τ) (id : String) : Bool := (r.entries.lookup id).isSome

/-- The response to a request, if its receipt has one. -/
def response (r : Receipts φ τ) (id : String) : Option τ :=
  (r.entries.lookup id).bind Receipt.response

/-- A request arrives: it is new, known, known with another digest, or there is no room. -/
def accept [DecidableEq φ] (r : Receipts φ τ) (id : String) (fingerprint : φ) (busy : Bool) :
    Admission × Receipts φ τ :=
  match r.entries.lookup id with
  | some receipt => (if receipt.fingerprint = fingerprint then .existing else .conflict, r)
  | none =>
    if busy || maxReceipts ≤ r.entries.entries.length || maxBytes < r.bytes + maxFrameBytes then
      (.full, r)
    else
      (.new, ⟨r.entries.insert id ⟨fingerprint, none⟩, r.bytes + maxFrameBytes⟩)

/-- A request is done. There must be a receipt for it. -/
def complete (size : τ → ℕ) (r : Receipts φ τ) (id : String) (response : τ) :
    Option (Receipts φ τ) :=
  match r.entries.lookup id with
  | none => none
  | some _ => some
    ⟨r.entries.modify id fun receipt => { receipt with response := some response },
      r.bytes - maxFrameBytes + size response⟩

/-- The gateway releases a receipt. Without a response nothing happens. -/
def acknowledge (size : τ → ℕ) (r : Receipts φ τ) (id : String) : Receipts φ τ :=
  match r.response id with
  | none => r
  | some response => ⟨r.entries.erase id, r.bytes - size response⟩

/-- Whether a response may be the next to be sent: the first in the order of the hash table that
was not sent on this connection. -/
def isNextResponse (r : Receipts φ τ) (sent : List String) (id : String) : Bool :=
  !sent.contains id && (r.response id).isSome

/-! ### Accounting -/

/-- What a receipt reserves or occupies. -/
def receiptBytes (size : τ → ℕ) (receipt : Receipt φ τ) : ℕ :=
  match receipt.response with
  | none => maxFrameBytes
  | some response => size response

/-- The bytes that all receipts reserve or occupy. -/
def reserved (size : τ → ℕ) (r : Receipts φ τ) : ℕ :=
  r.entries.weight fun _ => receiptBytes size

/-- The bytes are counted right. -/
def Accounted (size : τ → ℕ) (r : Receipts φ τ) : Prop := r.bytes = r.reserved size

variable {size : τ → ℕ} {r : Receipts φ τ} {id : String}

theorem accounted_empty : Accounted size (empty : Receipts φ τ) := rfl

theorem contains_iff : r.contains id = true ↔ id ∈ r.entries := AList.lookup_isSome

section Accept

variable [DecidableEq φ] (fingerprint : φ) (busy : Bool)

/-- A request without a receipt is admitted when the host is not busy, there are fewer than 128
receipts and another response of the largest size fits. -/
theorem accept_eq_new_iff (h : id ∉ r.entries) :
    (r.accept id fingerprint busy).1 = .new ↔ busy = false ∧
      r.entries.entries.length < maxReceipts ∧ r.bytes + maxFrameBytes ≤ maxBytes := by
  rw [accept, AList.lookup_eq_none.mpr h]
  by_cases hfull : busy || maxReceipts ≤ r.entries.entries.length ||
      maxBytes < r.bytes + maxFrameBytes
  · simp only [if_pos hfull, reduceCtorEq, false_iff]
    simp only [Bool.or_eq_true, decide_eq_true_eq] at hfull
    rintro ⟨hbusy, hlen, hbytes⟩
    rcases hfull with (hbusy' | hlen') | hbytes'
    · rw [hbusy] at hbusy'
      cases hbusy'
    · omega
    · omega
  · simp only [if_neg hfull, true_iff]
    simp only [Bool.or_eq_true, decide_eq_true_eq, not_or, Bool.not_eq_true] at hfull
    exact ⟨hfull.1.1, by omega, by omega⟩

variable (r id) in
/-- A request that arrives is admitted, or leaves the store as it is. -/
theorem accept_cases :
    (id ∉ r.entries ∧ r.accept id fingerprint busy =
      (.new, ⟨r.entries.insert id ⟨fingerprint, none⟩, r.bytes + maxFrameBytes⟩)) ∨
    ∃ a, a ≠ .new ∧ r.accept id fingerprint busy = (a, r) := by
  rw [accept]
  cases hl : r.entries.lookup id with
  | some receipt => exact Or.inr ⟨_, by split_ifs <;> simp, rfl⟩
  | none =>
    dsimp only
    split_ifs with hfull
    · exact Or.inr ⟨.full, by simp, rfl⟩
    · exact Or.inl ⟨AList.lookup_eq_none.mp hl, rfl⟩

variable {fingerprint busy} in
/-- A request is known only if it has a receipt. -/
theorem contains_of_accept_eq_existing
    (h : (r.accept id fingerprint busy).1 = .existing) : r.contains id = true := by
  rw [accept] at h
  cases hl : r.entries.lookup id with
  | some receipt => rw [contains, hl, Option.isSome_some]
  | none =>
    rw [hl] at h
    dsimp only at h
    split_ifs at h

end Accept

/-- Admitting a request keeps the count right. -/
theorem Accounted.insert {fingerprint : φ} (h : Accounted size r) (hid : id ∉ r.entries) :
    Accounted size ⟨r.entries.insert id ⟨fingerprint, none⟩, r.bytes + maxFrameBytes⟩ := by
  rw [Accounted, reserved] at h ⊢
  rw [Table.weight_insert hid, h]
  exact Nat.add_comm _ _

/-- The receipt of a request that is done held no response. -/
theorem Accounted.complete {r' : Receipts φ τ} {response : τ} (h : Accounted size r)
    (hnone : r.response id = none) (hr : r.complete size id response = some r') :
    Accounted size r' := by
  rw [Receipts.complete] at hr
  cases hl : r.entries.lookup id with
  | none => rw [hl] at hr; cases hr
  | some receipt =>
    rw [hl] at hr
    obtain rfl := Option.some.inj hr
    have hpending : receiptBytes size receipt = maxFrameBytes := by
      rw [Receipts.response, hl] at hnone
      rw [receiptBytes, show receipt.response = none from hnone]
    have hw := Table.weight_modify (w := fun _ => receiptBytes size)
      (f := fun receipt => { receipt with response := some response }) hl
    have hdone : receiptBytes size { receipt with response := some response } = size response :=
      rfl
    have hle := Table.weight_erase (w := fun _ => receiptBytes size) hl
    simp only [hpending, hdone] at hw hle
    rw [Accounted, reserved] at h ⊢
    dsimp only
    omega

theorem Accounted.acknowledge (h : Accounted size r) : Accounted size (r.acknowledge size id) := by
  rw [Receipts.acknowledge]
  split
  · exact h
  · next response hresp =>
    obtain ⟨receipt, hl, hr⟩ := Option.bind_eq_some_iff.mp hresp
    have hw := Table.weight_erase (w := fun _ => receiptBytes size) hl
    have hdone : receiptBytes size receipt = size response := by rw [receiptBytes, hr]
    rw [Accounted, reserved] at h ⊢
    rw [hdone] at hw
    dsimp only at h hw ⊢
    omega

end Receipts

end ExecutionProvider.Daemon
