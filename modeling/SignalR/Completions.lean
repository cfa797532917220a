/-
SignalR/Completions.lean

Whether a completion ends its call.  `process_message` decodes a completion
twice, as a `PossibleInvocation` to route it and as a `Completion<R>` to use it,
and removes the action only after a successful use.  So a completion ends its
call exactly if every field that either decoding reads is well typed
(`WellTyped`) and the storage is not poisoned; otherwise it leaves the
call pending, and no second completion will come.
-/
import SignalR.StorageRuns

namespace SignalR

open Transition

variable {V : Type}

/-! ### When a completion record decodes -/

/-- A field of type `Option<T>` can be read: it is missing, `null` or a `T`. -/
def FieldOk {α : Type} (decode : Value → Option α) (fields : List (String × Value))
    (name : String) : Prop :=
  ∀ v, fields.lookup name = some v → v = .null ∨ ∃ a, decode v = some a

/-- Every field that the two decodings of a completion read, apart from `type` and
`invocationId`, can be read, and no field is given twice. -/
structure WellTyped (result : DeserializeOwned V) (fields : List (String × Value)) : Prop where
  unambiguous : Value.Unambiguous
    ["type", "headers", "invocationId", "target", "result", "error"] fields
  headers : FieldOk Value.asStringMap fields "headers"
  target : FieldOk Value.asStr fields "target"
  result : FieldOk result.read fields "result"
  error : FieldOk Value.asStr fields "error"

section

open Value

theorem optional_eq_some_iff {α : Type} {decode : Value → Option α}
    {fields : List (String × Value)} {name : String} :
    (∃ x, optional decode (fields.lookup name) = some x) ↔ FieldOk decode fields name := by
  rcases h : fields.lookup name with - | v
  · simp [FieldOk, h]
  · cases v <;> simp [FieldOk, h, Value.optional, asOption, Option.map_eq_some_iff]

theorem record_obj_eq_some_iff {names : List String} {fields : List (String × Value)}
    {get : String → Option Value} :
    record names (.obj fields) = some get
      ↔ Unambiguous names fields ∧ get = fun n => fields.lookup n := by
  rw [record_obj]
  split <;> simp_all [eq_comm]

variable {fields : List (String × Value)} {k : String}

/-- The routing of a completion record. -/
theorem possibleInvocation_decode_iff (htype : fields.lookup "type" = some (.int 3))
    (hid : fields.lookup "invocationId" = some (.str k)) :
    (∃ i, PossibleInvocation.decode (.obj fields) = some i ∧ i.invocationId = some k)
      ↔ Unambiguous ["type", "headers", "invocationId", "target"] fields ∧
        FieldOk asStringMap fields "headers" ∧ FieldOk asStr fields "target" := by
  have ht : MessageType.decode (.int 3) = some .completion := rfl
  have hk : Value.optional asStr (some (.str k)) = some (some k) := rfl
  rw [← optional_eq_some_iff, ← optional_eq_some_iff]
  constructor
  -- peel the decoder apart field by field, in the order it reads them
  · rintro ⟨i, hi, -⟩
    simp only [PossibleInvocation.decode, Option.bind_eq_bind, Option.bind_eq_some_iff,
      record_obj_eq_some_iff] at hi
    obtain ⟨get, ⟨hu, rfl⟩, -, -, h, hh, -, -, t, htg, -⟩ := hi
    exact ⟨hu, ⟨h, hh⟩, ⟨t, htg⟩⟩
  · rintro ⟨hu, ⟨h, hh⟩, ⟨t, htg⟩⟩
    refine ⟨⟨.completion, h, some k, t⟩, ?_, rfl⟩
    simp [PossibleInvocation.decode, record_obj, hu, htype, ht, hh, hid, hk, htg]

/-- A record with an id is routed by that id or not at all. -/
theorem invocationId_of_decode (hid : fields.lookup "invocationId" = some (.str k))
    {i : PossibleInvocation} (hi : PossibleInvocation.decode (.obj fields) = some i) :
    i.invocationId = some k := by
  simp only [PossibleInvocation.decode, Option.bind_eq_bind, Option.bind_eq_some_iff,
    record_obj_eq_some_iff] at hi
  obtain ⟨get, ⟨-, rfl⟩, _, -, _, -, id, hidd, _, -, hi⟩ := hi
  simp only [hid] at hidd
  obtain rfl := Option.some.inj (show some (some k) = some id from hidd)
  exact (Option.some.inj hi) ▸ rfl

/-- The use of a completion record. -/
theorem completion_decode_iff {result : DeserializeOwned V}
    (htype : fields.lookup "type" = some (.int 3))
    (hid : fields.lookup "invocationId" = some (.str k)) :
    (∃ c, Completion.decode result (.obj fields) = some c)
      ↔ Unambiguous ["type", "headers", "invocationId", "result", "error"] fields ∧
        FieldOk asStringMap fields "headers" ∧ FieldOk result.read fields "result" ∧
        FieldOk asStr fields "error" := by
  have ht : MessageType.decode (.int 3) = some .completion := rfl
  rw [← optional_eq_some_iff, ← optional_eq_some_iff, ← optional_eq_some_iff]
  constructor
  · rintro ⟨c, hc⟩
    simp only [Completion.decode, Option.bind_eq_bind, Option.bind_eq_some_iff,
      record_obj_eq_some_iff] at hc
    obtain ⟨get, ⟨hu, rfl⟩, -, -, h, hh, -, -, r, hr, e, he, -⟩ := hc
    exact ⟨hu, ⟨h, hh⟩, ⟨r, hr⟩, ⟨e, he⟩⟩
  · rintro ⟨hu, ⟨h, hh⟩, ⟨r, hr⟩, ⟨e, he⟩⟩
    refine ⟨⟨.completion, h, k, r, e⟩, ?_⟩
    simp [Completion.decode, record_obj, hu, htype, ht, hh, hid, hr, he]

/-- A completion record decodes both ways exactly if it is well typed. -/
theorem wellTyped_iff {result : DeserializeOwned V}
    (htype : fields.lookup "type" = some (.int 3))
    (hid : fields.lookup "invocationId" = some (.str k)) :
    WellTyped result fields
      ↔ (∃ i, PossibleInvocation.decode (.obj fields) = some i ∧ i.invocationId = some k) ∧
        ∃ c, Completion.decode result (.obj fields) = some c := by
  rw [possibleInvocation_decode_iff htype hid, completion_decode_iff htype hid]
  constructor
  · rintro ⟨hu, hh, ht, hr, he⟩
    have hsub : ∀ names : List String,
        (∀ n ∈ names, n ∈ ["type", "headers", "invocationId", "target", "result", "error"]) →
        Unambiguous names fields := fun names hn n h => hu n (hn n h)
    exact ⟨⟨hsub _ (by decide), hh, ht⟩, hsub _ (by decide), hh, hr, he⟩
  · rintro ⟨⟨hu, hh, ht⟩, hu', -, hr, he⟩
    refine ⟨?_, hh, ht, hr, he⟩
    intro n hn
    -- each name is read by one of the two decodings
    have hcases : n ∈ ["type", "headers", "invocationId", "target"] ∨
        n ∈ ["type", "headers", "invocationId", "result", "error"] := by
      simp only [List.mem_cons, List.not_mem_nil, or_false] at hn ⊢
      tauto
    rcases hcases with hn | hn
    · exact hu n hn
    · exact hu' n hn

end

/-! ### How an action takes a completion -/

/-- The decoder of the results the action waits for. -/
def Action.decoder : Action V → Option (DeserializeOwned V)
  | .invocation a => some a.decode
  | .enumerable a => some a.decode
  | .callback _ => none

section

variable {S : Serde} {m : RawMessage} {a : Action V} {c : Cell} {decode : DeserializeOwned V}
variable {h : Heap V}

/-- A completion that decodes settles the cell the action is armed for. -/
theorem Action.updateWith_completion_ok (hm : m.messageType = .completion)
    (harmed : a.armed = some c) (hdec : a.decoder = some decode) {x : Completion V}
    (hx : deserialize S (Completion.decode decode) m.bytes m.protocol = .ok x) :
    (a.updateWith S m h).2.1.Settled c ∧ (a.updateWith S m h).2.2 = .ok := by
  cases a with
  | invocation a =>
      obtain rfl := Option.some.inj hdec
      obtain ⟨f, hf, rfl⟩ := Option.map_eq_some_iff.mp harmed
      simp only [updateWith, InvocationAction.updateWith, hm, hx, InvocationAction.complete, hf]
      exact ⟨h.resolved_complete_self f _, rfl⟩
  | enumerable a =>
      obtain rfl := Option.some.inj hdec
      obtain rfl := Option.some.inj harmed
      simp only [updateWith, EnumerableAction.updateWith, hm, hx]
      exact ⟨h.settled_close _, rfl⟩
  | callback a => simp [armed] at harmed

/-- A completion that does not decode changes nothing. -/
theorem Action.updateWith_completion_error (hm : m.messageType = .completion)
    (hdec : a.decoder = some decode) {e : String}
    (he : deserialize S (Completion.decode decode) m.bytes m.protocol = .error e) :
    a.updateWith S m h = (a, h, .err e) := by
  cases a with
  | invocation a =>
      obtain rfl := Option.some.inj hdec
      simp [updateWith, InvocationAction.updateWith, hm, he]
  | enumerable a =>
      obtain rfl := Option.some.inj hdec
      simp [updateWith, EnumerableAction.updateWith, hm, he]
  | callback a => simp [decoder] at hdec

end

/-! ### process_message on a completion -/

namespace Storage

variable {S : Serde} {s : Storage V} {m : RawMessage} {k : String} {a : Action V} {c : Cell}
variable {decode : DeserializeOwned V}

theorem get_remove_self (s : Storage V) (k : String) (hp : s.poisoned = false) :
    (s.remove k).get k = none := by
  unfold remove dropKey
  rw [hp]
  rcases h : s.get k with - | a
  · simpa using h
  · simp [get]

/-- A completion that is routed to a pending call and decodes there ends the
call and leaves the map. -/
theorem processMessage_completion_ok (hi : s.view.Inv) (hp : s.poisoned = false)
    (hget : s.get k = some a) (harmed : a.armed = some c) (hdec : a.decoder = some decode)
    (hm : m.messageType = .completion) {i : PossibleInvocation} (hik : i.invocationId = some k)
    (hroute : deserialize S PossibleInvocation.decode m.bytes m.protocol = .ok i)
    {x : Completion V}
    (hx : deserialize S (Completion.decode decode) m.bytes m.protocol = .ok x) :
    (s.processMessage S m).1.heap.Settled c ∧ (s.processMessage S m).1.get k = none := by
  obtain ⟨hsettled, hok⟩ := Action.updateWith_completion_ok (h := s.heap) hm harmed hdec hx
  -- the removal must not lose the settlement, so the cell has to exist
  have halloc : (a.updateWith S m s.heap).2.1.Allocated c := by
    have hcell := hi.armed_cell k c (by simp [View.armedAt, hget, harmed])
    have htouch := Action.updateWith_touches (v := s.view) S m hget
    exact (View.Touches.advances htouch).allocated c (hi.allocated k c hcell)
  have hupdate : s.update k (Action.updateWith S m) =
      ({ s with
          data := s.data.insert k (a.updateWith S m s.heap).1
          heap := (a.updateWith S m s.heap).2.1
          poisoned := false }, .ok) := by
    simp [update, hp, hget, hok]
  have hprocess : (s.processMessage S m).1 = (s.update k (Action.updateWith S m)).1.remove k := by
    simp [processMessage, hm, hroute, hik, hupdate]
  rw [hprocess, hupdate]
  refine ⟨?_, get_remove_self _ k rfl⟩
  exact (View.Touches.advances (remove_touches _ k)).settled c halloc hsettled

/-- A completion that cannot be routed to a pending call, or does not decode
there, leaves the cells as they were. -/
theorem processMessage_completion_heap (hget : s.get k = some a)
    (hdec : a.decoder = some decode) (hm : m.messageType = .completion)
    (hfail : s.poisoned = true ∨
      (∀ i, deserialize S PossibleInvocation.decode m.bytes m.protocol = .ok i →
        i.invocationId = some k →
        ∃ e, deserialize S (Completion.decode decode) m.bytes m.protocol = .error e))
    (hroute : ∀ i, deserialize S PossibleInvocation.decode m.bytes m.protocol = .ok i →
      i.invocationId = some k) :
    (s.processMessage S m).1.heap = s.heap := by
  rcases hi : deserialize S PossibleInvocation.decode m.bytes m.protocol with e | i
  · simp [processMessage, hm, hi]
  have hik := hroute i hi
  rcases hp : s.poisoned with - | -
  · obtain ⟨e, he⟩ := (hfail.resolve_left (by simp [hp])) i hi hik
    have hu := Action.updateWith_completion_error (h := s.heap) hm hdec he
    simp [processMessage, hm, hi, hik, update, hp, hget, hu]
  · simp [processMessage, hm, hi, hik, update, hp]

/-- A record type decodes from the bytes of a JSON record as from its fields. -/
theorem deserialize_fields_iff (hjson : m.protocol = .json) {fields : List (String × Value)}
    (hv : wireValue S m.bytes .json = some (.obj fields)) {α : Type} {d : Value → Option α}
    {x : α} : deserialize S d m.bytes m.protocol = .ok x ↔ d (.obj fields) = some x := by
  rw [deserialize_eq_ok_iff, hjson, hv]
  exact Iff.rfl

/-- **When a completion ends its call.**  A JSON completion record for a pending
invocation or stream settles it and removes it from the map exactly if the storage
is not poisoned and the record is well typed. -/
theorem completion_ends_call_iff {capacity : Nat} (h : Reachable S capacity s)
    (hget : s.get k = some a) (harmed : a.armed = some c) (hpending : ¬ s.heap.Settled c)
    (hdec : a.decoder = some decode) (hm : m.messageType = .completion)
    (hjson : m.protocol = .json) {fields : List (String × Value)}
    (hv : wireValue S m.bytes .json = some (.obj fields))
    (htype : fields.lookup "type" = some (.int 3))
    (hid : fields.lookup "invocationId" = some (.str k)) :
    ((s.processMessage S m).1.heap.Settled c ∧ (s.processMessage S m).1.get k = none)
      ↔ s.poisoned = false ∧ WellTyped decode fields := by
  have hdecode : ∀ {α : Type} {d : Value → Option α} {x : α},
      deserialize S d m.bytes m.protocol = .ok x ↔ d (.obj fields) = some x :=
    deserialize_fields_iff hjson hv
  rw [wellTyped_iff htype hid]
  constructor
  · intro hdone
    by_contra hnot
    -- otherwise the message leaves the cells alone, and the call was pending before
    refine hpending ?_
    rw [← processMessage_completion_heap (S := S) hget hdec hm ?_
      fun i hi => invocationId_of_decode hid (hdecode.mp hi)]
    · exact hdone.1
    rcases hp : s.poisoned with - | -
    · refine .inr fun i hi hik => ?_
      rcases hx : deserialize S (Completion.decode decode) m.bytes m.protocol with e | x
      · exact ⟨e, rfl⟩
      · exact absurd ⟨hp, ⟨i, hdecode.mp hi, hik⟩, x, hdecode.mp hx⟩ hnot
    · exact .inl rfl
  · rintro ⟨hp, ⟨i, hi, hik⟩, x, hx⟩
    exact processMessage_completion_ok h.inv hp hget harmed hdec hm hik (hdecode.mpr hi)
      (hdecode.mpr hx)

/-! ### A completion whose result has the wrong type -/

/-- One invocation of `add` is pending and waits for an integer. -/
def pendingAdd : Storage Int :=
  [StorageOp.createKey "add", .addInvocation "add_1" .i64].foldl (run (.ofTable [] []))
    (newWithDeferredMessageCapacity 8)

def completionText (result : String) : String :=
  "\x7b\"type\":3,\"invocationId\":\"add_1\",\"result\":" ++ result ++ "\x7d"

def completionFields (result : Value) : List (String × Value) :=
  [("type", .int 3), ("invocationId", .str "add_1"), ("result", result)]

/-- The serializer on a completion with an integer and one with a string. -/
def completionSerde : Serde :=
  .ofTable
    [(completionText "3", .obj (completionFields (.int 3))),
      (completionText "\"oops\"", .obj (completionFields (.str "oops")))]
    []

theorem completion_ends_call_iff_add :
    let t := (pendingAdd.processMessage completionSerde
      ⟨asBytes (completionText "3"), .completion, .json⟩).1
    (t.heap.Settled (.future 0) ∧ t.get "add_1" = none)
      ↔ pendingAdd.poisoned = false ∧ WellTyped .i64 (completionFields (.int 3)) := by
  have hrun : Reachable completionSerde 8 pendingAdd :=
    Reaches.of_exec [.createKey "add", .addInvocation "add_1" .i64] rfl
  refine completion_ends_call_iff hrun
    (a := .invocation (InvocationAction.new "add_1" .i64 .empty).1)
    rfl rfl ?_ rfl rfl rfl ?_ rfl rfl
  · show ¬ pendingAdd.heap.Resolved 0
    decide
  · rw [wireValue, fromUtf8_asBytes]
    rfl

theorem completion_leaves_call_pending :
    Reachable completionSerde 8 pendingAdd ∧
      pendingAdd.get "add_1"
        = some (.invocation (InvocationAction.new "add_1" .i64 .empty).1) ∧
      ¬ pendingAdd.heap.Settled (.future 0) ∧
      wireValue completionSerde (asBytes (completionText "\"oops\"")) .json
        = some (.obj (completionFields (.str "oops"))) ∧
      readSignalrMessageType completionSerde (asBytes (completionText "\"oops\"")) .json
        = .ok .completion ∧
      ¬ ((pendingAdd.processMessage completionSerde
            ⟨asBytes (completionText "\"oops\""), .completion, .json⟩).1.heap.Settled (.future 0) ∧
          (pendingAdd.processMessage completionSerde
            ⟨asBytes (completionText "\"oops\""), .completion, .json⟩).1.get "add_1" = none) := by
  have hpending : ¬ pendingAdd.heap.Settled (.future 0) := by
    show ¬ pendingAdd.heap.Resolved 0
    decide
  have hwire : wireValue completionSerde (asBytes (completionText "\"oops\"")) .json
      = some (.obj (completionFields (.str "oops"))) := by
    rw [wireValue, fromUtf8_asBytes]
    rfl
  have htype : deserialize completionSerde Ping.decode
      (asBytes (completionText "\"oops\"")) .json = .ok ⟨.completion⟩ := by
    rw [deserialize_eq_ok_iff, hwire]
    rfl
  refine ⟨Reaches.of_exec [.createKey "add", .addInvocation "add_1" .i64] rfl,
    rfl, hpending, hwire, ?_, ?_⟩
  · rw [readSignalrMessageType, htype]
    rfl
  · rintro ⟨hsettled, -⟩
    have hdecoder : (Action.invocation (InvocationAction.new "add_1" .i64 .empty).1).decoder
        = some .i64 := rfl
    rw [processMessage_completion_heap (k := "add_1") rfl hdecoder rfl] at hsettled
    · exact hpending hsettled
    · refine .inr fun i _ _ => ?_
      rcases hx : deserialize completionSerde (Completion.decode .i64)
        (asBytes (completionText "\"oops\"")) .json with e | x
      · exact ⟨e, rfl⟩
      · have hnone : Completion.decode .i64 (.obj (completionFields (.str "oops"))) = none :=
          rfl
        rw [deserialize_eq_ok_iff, hwire, Option.bind_some, hnone] at hx
        simp at hx
    · intro i hi
      rw [deserialize_eq_ok_iff, hwire] at hi
      exact invocationId_of_decode rfl hi

end Storage

end SignalR
