import ToolkitCpp.JsonFlatten

/-!
# Broker descriptions as JSON

`serializeToJson` and `deserializeFromJson` of `BrokerDescription_t`. The decoder reads each number
with the default `0`, an `int`, and then converts it to the type of the field: a queue length of 32
bits survives the way through `int`, a size of 64 bits does not always.
-/
namespace ToolkitCpp.Broker
open Json JSON

/-- `BrokerDescription_t`; the functions here do not use its `timeoutOpenMks`. -/
structure BrokerDescription where
  role : Str := []
  credentials : Str := []
  maxLenQueueSend : UInt32 := 0
  maxLenQueueRecv : UInt32 := 0
  needKeepConnect : Bool := false
  maxSizeMessage : UInt64 := 0
  deriving DecidableEq

/-- A list of pairs whose first elements are strings becomes an object. -/
def ofPairs (pairs : Members) : JSON := object (pairs.foldr (fun p => put p.1 p.2) [])

def BrokerDescription.serializeToJson (d : BrokerDescription) : JSON :=
  ofPairs
    [(txt "Role", string d.role),
      (txt "Credentials", string d.credentials),
      (txt "MaxLenQueueSend", unsigned d.maxLenQueueSend.toUInt64),
      (txt "MaxLenQueueRecv", unsigned d.maxLenQueueRecv.toUInt64),
      (txt "KeepConnect", boolean d.needKeepConnect),
      (txt "MaxSizeMessage", unsigned d.maxSizeMessage)]

/-- The description afterwards and the exception, if one is thrown; the fields before the one that
throws are assigned already. -/
abbrev Assigning := ExceptT Exc (StateM BrokerDescription)

def assign {α : Type} (r : Except Exc α) (store : BrokerDescription → α → BrokerDescription) :
    Assigning Unit :=
  match r with
  | .ok v => modify fun d => store d v
  | .error e => throw e

def deserializeFromJson (jsonData : JSON) : Assigning Unit := do
  if jsonData.isNull then
    modify fun d =>
      { d with
        credentials := []
        maxLenQueueSend := 0
        maxLenQueueRecv := 0
        needKeepConnect := true
        maxSizeMessage := 0 }
  else
    assign (value getString jsonData (txt "Role") []) fun d v => { d with role := v }
    assign (value getString jsonData (txt "Credentials") []) fun d v => { d with credentials := v }
    assign (value getInt jsonData (txt "MaxLenQueueSend") 0) fun d v =>
      { d with maxLenQueueSend := UInt32.ofInt v }
    assign (value getInt jsonData (txt "MaxLenQueueRecv") 0) fun d v =>
      { d with maxLenQueueRecv := UInt32.ofInt v }
    assign (value getBool jsonData (txt "KeepConnect") true) fun d v =>
      { d with needKeepConnect := v }
    assign (value getInt jsonData (txt "MaxSizeMessage") 0) fun d v =>
      { d with maxSizeMessage := UInt64.ofInt v }

/-- How `deserializeFromJson` ends and the description afterwards. -/
def decoded (jsonData : JSON) (before : BrokerDescription) : Except Exc Unit × BrokerDescription :=
  StateT.run (ExceptT.run (deserializeFromJson jsonData)) before

/-- Decoding what was encoded gives the description back, whatever was there before. -/
def Restores (x before : BrokerDescription) : Prop := decoded x.serializeToJson before = (.ok (), x)

lemma value_ofPairs {α : Type} (get : JSON → Except Exc α) (pairs : Members) (key : Str)
    (default_value : α) :
    value get (ofPairs pairs) key default_value =
      match pairs.lookup key with
      | some v => get v
      | none => .ok default_value := by
  have hlookup : (pairs.foldr (fun p => put p.1 p.2) []).lookup key = pairs.lookup key := by
    induction pairs with
    | nil => rfl
    | cons p pairs ih =>
      obtain ⟨k, v⟩ := p
      rw [List.foldr_cons, lookup_put, lookup_cons, ih]
  cases h : pairs.lookup key with
  | none => simp only [value, ofPairs, hlookup, h]
  | some v => simp only [value, ofPairs, hlookup, h]

/-- A value of 32 bits is the same after the way through `int`. -/
lemma ofInt_int32 (n : UInt32) : UInt32.ofInt (int32 n.toUInt64.toNat) = n := by
  have hn := n.toNat_lt
  apply UInt32.toNat_inj.mp
  rw [UInt32.ofInt, int32_eq, UInt32.toNat_toUInt64, UInt32.toNat_ofNat']
  omega

/-- A value of 64 bits is extended from the sign of its low half. -/
lemma ofInt_int32_iff (n : UInt64) :
    UInt64.ofInt (int32 n.toNat) = n ↔ n.toNat < 2 ^ 31 ∨ 2 ^ 64 - 2 ^ 31 ≤ n.toNat := by
  have hn := n.toNat_lt
  rw [← UInt64.toNat_inj, UInt64.ofInt, int32_eq, UInt64.toNat_ofNat']
  omega

lemma deserialize_serialize (x before : BrokerDescription) :
    decoded x.serializeToJson before =
      (.ok (), { x with maxSizeMessage := UInt64.ofInt (int32 x.maxSizeMessage.toNat) }) := by
  have hobject : x.serializeToJson.isNull = false := rfl
  have hrole (d) : value getString x.serializeToJson (txt "Role") d = .ok x.role := by
    rw [BrokerDescription.serializeToJson, value_ofPairs]
    rfl
  have hcredentials (d) :
      value getString x.serializeToJson (txt "Credentials") d = .ok x.credentials := by
    rw [BrokerDescription.serializeToJson, value_ofPairs]
    rfl
  have hsend (d) : value getInt x.serializeToJson (txt "MaxLenQueueSend") d =
      .ok (int32 x.maxLenQueueSend.toUInt64.toNat) := by
    rw [BrokerDescription.serializeToJson, value_ofPairs]
    rfl
  have hrecv (d) : value getInt x.serializeToJson (txt "MaxLenQueueRecv") d =
      .ok (int32 x.maxLenQueueRecv.toUInt64.toNat) := by
    rw [BrokerDescription.serializeToJson, value_ofPairs]
    rfl
  have hkeep (d) : value getBool x.serializeToJson (txt "KeepConnect") d =
      .ok x.needKeepConnect := by
    rw [BrokerDescription.serializeToJson, value_ofPairs]
    rfl
  have hsize (d) : value getInt x.serializeToJson (txt "MaxSizeMessage") d =
      .ok (int32 x.maxSizeMessage.toNat) := by
    rw [BrokerDescription.serializeToJson, value_ofPairs]
    rfl
  rw [decoded, deserializeFromJson, hobject, hrole, hcredentials, hsend, hrecv, hkeep, hsize]
  simp only [assign, ofInt_int32]
  rfl

/-- For every description: all fields are restored exactly when the size of a message is below
2^31 or among the last 2^31 values of 64 bits. -/
theorem broker_restored_iff (x before : BrokerDescription) :
    Restores x before ↔
      x.maxSizeMessage.toNat < 2 ^ 31 ∨ 2 ^ 64 - 2 ^ 31 ≤ x.maxSizeMessage.toNat := by
  obtain ⟨role, credentials, send, recv, keep, size⟩ := x
  rw [Restores, deserialize_serialize, ← ofInt_int32_iff]
  simp only [Prod.mk.injEq, BrokerDescription.mk.injEq, true_and]

/-- Two gigabytes become almost 2^64 bytes. -/
theorem broker_not_restored : ¬ ∀ x before : BrokerDescription, Restores x before := by
  intro h
  have hrestored := h { maxSizeMessage := 2147483648 } {}
  rw [Restores, deserialize_serialize] at hrestored
  have hsize := congrArg (fun r => r.2.maxSizeMessage) hrestored
  exact absurd hsize (by decide)

end ToolkitCpp.Broker
