/-
SignalR/Outcomes.lean

What a completion record makes of a pending invocation.  `Completion::into_result`
reads the two optional fields of the record: a result wins over an error beside it,
and a record with neither is an error of its own.  An optional field takes `null` as
`None`, whatever its type is.  So a result that is written as `null` is lost, and an
error is lost beside any other result (`completion_outcome_iff`).
-/
import SignalR.Completions
import SignalR.Serialization

namespace SignalR

open Transition

variable {V : Type}

/-! ### The outcome of a completion -/

/-- `is_error` and `into_result` agree exactly if one of the two fields is given. -/
theorem Completion.isError_iff (c : Completion V) :
    (c.isError = true ↔ ∃ e, c.intoResult = .error e) ↔ (c.result = none ↔ c.error ≠ none) := by
  rcases hr : c.result with - | r <;> rcases he : c.error with - | e <;>
    simp [isError, intoResult, hr, he]

/-- The future is resolved with `r`, which its next poll returns. -/
def Heap.ResolvedWith (h : Heap V) (f : Nat) (r : Except String V) : Prop :=
  h.futures f = .complete (some r)

theorem Heap.resolvedWith_complete_iff (h : Heap V) (f : Nat) (r r' : Except String V) :
    (h.complete f r').ResolvedWith f r ↔ r' = r := by
  show Function.update h.futures f (.complete (some r')) f = _ ↔ _
  rw [Function.update_self]
  simp

/-- The two fields of a completion that decide its outcome. -/
theorem Completion.fields_of_decode {result : DeserializeOwned V} {fields : List (String × Value)}
    {x : Completion V} (hx : decode result (.obj fields) = some x) :
    Value.optional result.read (fields.lookup "result") = some x.result ∧
      Value.optional Value.asStr (fields.lookup "error") = some x.error := by
  simp only [decode, Option.bind_eq_bind, Option.bind_eq_some_iff, record_obj_eq_some_iff] at hx
  obtain ⟨get, ⟨-, rfl⟩, _, -, _, -, _, -, r, hr, e, he, hx⟩ := hx
  exact (Option.some.inj hx) ▸ ⟨hr, he⟩

namespace Storage

variable {S : Serde} {s : Storage V} {m : RawMessage} {k : String} {a : InvocationAction V}
variable {f : Nat}

/-- A completion that is routed to a pending invocation and decodes there resolves
its future. -/
theorem processMessage_completion_complete (hp : s.poisoned = false)
    (hget : s.get k = some (.invocation a)) (ha : a.completer = some f)
    (hm : m.messageType = .completion) {i : PossibleInvocation} (hik : i.invocationId = some k)
    (hroute : deserialize S PossibleInvocation.decode m.bytes m.protocol = .ok i)
    {x : Completion V}
    (hx : deserialize S (Completion.decode a.decode) m.bytes m.protocol = .ok x) :
    (s.processMessage S m).1.heap = s.heap.complete f x.intoResult := by
  have hupdate : s.update k (Action.updateWith S m) =
      ({ s with
          data := s.data.insert k (.invocation { a with completer := none })
          heap := s.heap.complete f x.intoResult
          poisoned := false }, .ok) := by
    simp [update, hp, hget, Action.updateWith, InvocationAction.updateWith, hm, hx,
      InvocationAction.complete, ha]
  have hprocess : (s.processMessage S m).1 = (s.update k (Action.updateWith S m)).1.remove k := by
    simp [processMessage, hm, hroute, hik, hupdate]
  -- the removed action has used its completer, so its drop does nothing
  rw [hprocess, hupdate]
  simp [remove, dropKey, get, Action.drop, InvocationAction.disposeInternal,
    InvocationAction.complete]

variable {capacity : Nat}

/-- What a completion record for a pending invocation does to its future: it is
resolved with the outcome of the record if the record can be used, and it stays
unresolved otherwise. -/
theorem resolvedWith_iff (h : Reachable S capacity s) (hget : s.get k = some (.invocation a))
    (ha : a.completer = some f) (hm : m.messageType = .completion) (hjson : m.protocol = .json)
    {fields : List (String × Value)} (hv : wireValue S m.bytes .json = some (.obj fields))
    (htype : fields.lookup "type" = some (.int 3))
    (hid : fields.lookup "invocationId" = some (.str k)) (r : Except String V) :
    (s.processMessage S m).1.heap.ResolvedWith f r
      ↔ s.poisoned = false ∧ WellTyped a.decode fields ∧
        ∃ x, Completion.decode a.decode (.obj fields) = some x ∧ x.intoResult = r := by
  have hdecode : ∀ {α : Type} {d : Value → Option α} {x : α},
      deserialize S d m.bytes m.protocol = .ok x ↔ d (.obj fields) = some x :=
    deserialize_fields_iff hjson hv
  rw [wellTyped_iff htype hid]
  by_cases huse : s.poisoned = false ∧
      (∃ i, PossibleInvocation.decode (.obj fields) = some i ∧ i.invocationId = some k) ∧
      ∃ x, Completion.decode a.decode (.obj fields) = some x
  · obtain ⟨hp, ⟨i, hi, hik⟩, x, hx⟩ := huse
    rw [processMessage_completion_complete hp hget ha hm hik (hdecode.mpr hi) (hdecode.mpr hx),
      Heap.resolvedWith_complete_iff]
    constructor
    · intro hr
      exact ⟨hp, ⟨⟨i, hi, hik⟩, x, hx⟩, x, hx, hr⟩
    · rintro ⟨-, -, x', hx', hr⟩
      obtain rfl := Option.some.inj (hx.symm.trans hx')
      exact hr
  · -- the record leaves the cells alone, and the future was pending before
    have hheap : (s.processMessage S m).1.heap = s.heap := by
      refine processMessage_completion_heap (S := S) hget rfl hm ?_
        fun i hi => invocationId_of_decode hid (hdecode.mp hi)
      rcases hp : s.poisoned with - | -
      · refine .inr fun i hi hik => ?_
        rcases hx : deserialize S (Completion.decode a.decode) m.bytes m.protocol with e | x
        · exact ⟨e, rfl⟩
        · exact absurd ⟨hp, ⟨i, hdecode.mp hi, hik⟩, x, hdecode.mp hx⟩ huse
      · exact .inl rfl
    rw [hheap]
    constructor
    · intro hresolved
      have hpending : ¬ s.heap.Resolved f :=
        h.inv.unresolved k f (by simp [View.armedAt, hget, Action.armed, ha])
      exact absurd (by rw [Heap.Resolved, hresolved]; rfl) hpending
    · rintro ⟨hp, ⟨hi, -⟩, x, hx, -⟩
      exact absurd ⟨hp, hi, x, hx⟩ huse

/-- The record of `create_result(k, v)`. -/
def resultFields (k : String) (result : Value) : List (String × Value) :=
  [("type", .int 3), ("invocationId", .str k), ("result", result)]

theorem value_createResult (payload : Payload V) (v : V) :
    (Message.completion payload (.createResult k v)).value .json
      = .obj (resultFields k (payload.encode .json v)) := rfl

/-- The outcome of a result: itself, unless it is written as `null`. -/
theorem resolvedWith_ok_iff (h : Reachable S capacity s) (hget : s.get k = some (.invocation a))
    (ha : a.completer = some f) (hm : m.messageType = .completion) (hjson : m.protocol = .json)
    {payload : Payload V} {v : V} (hdec : a.decode = payload.decode)
    (hround : payload.decode.read (payload.encode .json v) = some v)
    (hv : wireValue S m.bytes .json
      = some ((Message.completion payload (.createResult k v)).value .json)) :
    (s.processMessage S m).1.heap.ResolvedWith f (.ok v)
      ↔ s.poisoned = false ∧ payload.encode .json v ≠ .null := by
  rw [value_createResult] at hv
  rw [resolvedWith_iff h hget ha hm hjson hv rfl rfl, wellTyped_iff (k := k) rfl rfl, hdec]
  constructor
  · rintro ⟨hp, -, x, hx, hout⟩
    refine ⟨hp, fun hnull => ?_⟩
    -- `null` is read as a missing result
    have hnone : x.result = none := by
      rw [hnull] at hx
      exact (Option.some.inj (Completion.fields_of_decode hx).1).symm
    rw [Completion.intoResult, hnone] at hout
    rcases he : x.error with - | e <;> simp [he] at hout
  · rintro ⟨hp, hne⟩
    have hx : Completion.decode payload.decode (.obj (resultFields k (payload.encode .json v)))
        = some (.createResult k v) := by
      rw [← value_createResult]
      refine Completion.decode_json fun r hr => ?_
      obtain rfl := Option.some.inj (show some v = some r from hr)
      exact ⟨hround, hne⟩
    refine ⟨hp, ⟨⟨⟨.completion, none, some k, none⟩, ?_, rfl⟩, _, hx⟩, _, hx, rfl⟩
    rw [← value_createResult]
    exact PossibleInvocation.decode_json rfl rfl rfl

/-- The outcome of an error: itself, unless a result stands beside it. -/
theorem resolvedWith_error_iff (h : Reachable S capacity s)
    (hget : s.get k = some (.invocation a)) (ha : a.completer = some f)
    (hm : m.messageType = .completion) (hjson : m.protocol = .json)
    {fields : List (String × Value)} (hv : wireValue S m.bytes .json = some (.obj fields))
    (htype : fields.lookup "type" = some (.int 3))
    (hid : fields.lookup "invocationId" = some (.str k)) {e : String}
    (herror : fields.lookup "error" = some (.str e)) :
    (s.processMessage S m).1.heap.ResolvedWith f (.error e)
      ↔ s.poisoned = false ∧ WellTyped a.decode fields ∧
        (fields.lookup "result" = none ∨ fields.lookup "result" = some .null) := by
  rw [resolvedWith_iff h hget ha hm hjson hv htype hid]
  have hfields : ∀ {x : Completion V}, Completion.decode a.decode (.obj fields) = some x →
      Value.optional a.decode.read (fields.lookup "result") = some x.result ∧ x.error = some e := by
    intro x hx
    obtain ⟨hresult, he⟩ := Completion.fields_of_decode hx
    rw [herror] at he
    exact ⟨hresult, (Option.some.inj he).symm⟩
  constructor
  · rintro ⟨hp, ht, x, hx, hout⟩
    refine ⟨hp, ht, ?_⟩
    obtain ⟨hresult, he⟩ := hfields hx
    rcases hr : x.result with - | r
    · rcases hl : fields.lookup "result" with - | w
      · exact .inl rfl
      · cases w <;> simp_all [Value.optional, Value.asOption]
    · simp [Completion.intoResult, hr] at hout
  · rintro ⟨hp, ht, hresult⟩
    obtain ⟨-, x, hx⟩ := (wellTyped_iff htype hid).mp ht
    obtain ⟨hr, he⟩ := hfields hx
    have hnone : x.result = none := by
      rcases hresult with hl | hl <;> rw [hl] at hr <;> exact (Option.some.inj hr).symm
    exact ⟨hp, ht, x, hx, by simp [Completion.intoResult, hnone, he]⟩

/-- **When the outcome of a completion is faithful.**  For a pending invocation the
record of `create_result` resolves it with that result exactly if the storage is not
poisoned and the result is not written as `null`; a record with an error resolves it
with that error exactly if the storage is not poisoned, the record is well typed and
has no result beside the error; and `is_error` and `into_result` agree exactly if one
of the two is given. -/
theorem completion_outcome_iff (h : Reachable S capacity s)
    (hget : s.get k = some (.invocation a)) (ha : a.completer = some f)
    (hm : m.messageType = .completion) (hjson : m.protocol = .json) :
    (∀ (payload : Payload V) v, a.decode = payload.decode →
      payload.decode.read (payload.encode .json v) = some v →
      wireValue S m.bytes .json
        = some ((Message.completion payload (.createResult k v)).value .json) →
      ((s.processMessage S m).1.heap.ResolvedWith f (.ok v)
        ↔ s.poisoned = false ∧ payload.encode .json v ≠ .null)) ∧
    (∀ fields e, wireValue S m.bytes .json = some (.obj fields) →
      fields.lookup "type" = some (.int 3) → fields.lookup "invocationId" = some (.str k) →
      fields.lookup "error" = some (.str e) →
      ((s.processMessage S m).1.heap.ResolvedWith f (.error e)
        ↔ s.poisoned = false ∧ WellTyped a.decode fields ∧
          (fields.lookup "result" = none ∨ fields.lookup "result" = some .null))) ∧
    ∀ c : Completion V,
      (c.isError = true ↔ ∃ e, c.intoResult = .error e) ↔ (c.result = none ↔ c.error ≠ none) :=
  ⟨fun _ _ hdec hround hv => resolvedWith_ok_iff h hget ha hm hjson hdec hround hv,
    fun _ _ hv htype hid herror =>
      resolvedWith_error_iff h hget ha hm hjson hv htype hid herror,
    Completion.isError_iff⟩

/-! ### A result that is `null`, and an error beside a result -/

/-- Optional integers as results. -/
def optionalPayload : Payload (Option Int) where
  encode
    | _, some n => .int n
    | _, none => .null
  decode := .option .i64

/-- An invocation of `find` is pending and waits for an optional integer. -/
def pendingFind : Storage (Option Int) :=
  [StorageOp.createKey "find", .addInvocation "find_1" optionalPayload.decode].foldl
    (run (.ofTable [] [])) (newWithDeferredMessageCapacity 8)

def foundNothing : String :=
  "\x7b\"type\":3,\"invocationId\":\"find_1\",\"result\":null\x7d"

def foundWithError : String :=
  "\x7b\"type\":3,\"invocationId\":\"find_1\",\"result\":3,\"error\":\"failed\"\x7d"

/-- The fields of the second record. -/
def failedFields : List (String × Value) :=
  resultFields "find_1" (.int 3) ++ [("error", .str "failed")]

/-- The serializer on the two records. -/
def findSerde : Serde :=
  .ofTable
    [(foundNothing, .obj (resultFields "find_1" .null)),
      (foundWithError, .obj failedFields)]
    []

theorem reachable_pendingFind : Reachable findSerde 8 pendingFind :=
  Reaches.of_exec [.createKey "find", .addInvocation "find_1" optionalPayload.decode] rfl

/-- The pending action. -/
def findAction : InvocationAction (Option Int) :=
  (InvocationAction.new "find_1" optionalPayload.decode .empty).1

theorem wireValue_foundNothing : wireValue findSerde (asBytes foundNothing) .json
    = some ((Message.completion optionalPayload (.createResult "find_1" none)).value .json) := by
  rw [wireValue, fromUtf8_asBytes]
  rfl

theorem wireValue_foundWithError :
    wireValue findSerde (asBytes foundWithError) .json = some (.obj failedFields) := by
  rw [wireValue, fromUtf8_asBytes]
  rfl

theorem completion_outcome_iff_find :
    ((pendingFind.processMessage findSerde
        ⟨asBytes foundNothing, .completion, .json⟩).1.heap.ResolvedWith 0 (.ok none)
      ↔ pendingFind.poisoned = false ∧ optionalPayload.encode .json none ≠ .null) ∧
    ((pendingFind.processMessage findSerde
        ⟨asBytes foundWithError, .completion, .json⟩).1.heap.ResolvedWith 0 (.error "failed")
      ↔ pendingFind.poisoned = false ∧
        WellTyped findAction.decode failedFields ∧
        (failedFields.lookup "result" = none ∨ failedFields.lookup "result" = some .null)) ∧
    ∀ c : Completion (Option Int),
      (c.isError = true ↔ ∃ e, c.intoResult = .error e) ↔ (c.result = none ↔ c.error ≠ none) := by
  obtain ⟨hresult, -, hagree⟩ :=
    completion_outcome_iff (m := ⟨asBytes foundNothing, .completion, .json⟩)
      (k := "find_1") (a := findAction) (f := 0) reachable_pendingFind rfl rfl rfl rfl
  obtain ⟨-, herror, -⟩ :=
    completion_outcome_iff (m := ⟨asBytes foundWithError, .completion, .json⟩)
      (k := "find_1") (a := findAction) (f := 0) reachable_pendingFind rfl rfl rfl rfl
  exact ⟨hresult optionalPayload none rfl rfl wireValue_foundNothing,
    herror _ "failed" wireValue_foundWithError rfl rfl rfl, hagree⟩

theorem null_result_and_error_lost :
    Reachable findSerde 8 pendingFind ∧ pendingFind.get "find_1" = some (.invocation findAction) ∧
      optionalPayload.decode.read (optionalPayload.encode .json none) = some none ∧
      wireValue findSerde (asBytes foundNothing) .json
        = some ((Message.completion optionalPayload (.createResult "find_1" none)).value .json) ∧
      ¬ (pendingFind.processMessage findSerde
          ⟨asBytes foundNothing, .completion, .json⟩).1.heap.ResolvedWith 0 (.ok none) ∧
      wireValue findSerde (asBytes foundWithError) .json = some (.obj failedFields) ∧
      ¬ (pendingFind.processMessage findSerde
          ⟨asBytes foundWithError, .completion, .json⟩).1.heap.ResolvedWith 0
            (.error "failed") := by
  refine ⟨reachable_pendingFind, rfl, rfl, wireValue_foundNothing, ?_, wireValue_foundWithError, ?_⟩
  · intro hres
    have hiff := resolvedWith_ok_iff (m := ⟨asBytes foundNothing, .completion, .json⟩)
      (a := findAction) (f := 0) reachable_pendingFind rfl rfl rfl rfl rfl rfl
      wireValue_foundNothing
    exact (hiff.mp hres).2 rfl
  · intro hres
    have hiff := resolvedWith_error_iff (m := ⟨asBytes foundWithError, .completion, .json⟩)
      (a := findAction) (f := 0) reachable_pendingFind rfl rfl rfl rfl wireValue_foundWithError
      rfl rfl rfl
    rcases (hiff.mp hres).2.2 with hnone | hnull
    · exact absurd hnone nofun
    · exact absurd hnull nofun

end Storage

end SignalR
