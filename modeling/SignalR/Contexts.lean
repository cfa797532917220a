/-
SignalR/Contexts.lean

What the user writes and reads.  A caller appends arguments through an
`ArgumentConfiguration`; a callback gets an `InvocationContext`, from which it takes
the arguments by their index, and through which it may complete the invocation.

An argument is serialized when it is appended, and one that cannot be serialized is
left out, so the arguments after it move up.  The context writes an argument as JSON
text and reads the text as the type asked for.

Together with the reader this makes two ways through the library.  However the records
are grouped into text frames, a callback is called once for each invocation of its
target, in order, and takes from its context what the caller had appended
(`requests_reach_callback`).  And what it completes the invocation with is what the
caller's future is resolved with, by the first record that answers the call
(`completion_reaches_caller`).
-/
import SignalR.Client
import SignalR.Pipeline
import SignalR.Readers
import SignalR.Verdicts

namespace SignalR

open Transition

variable {V : Type}

/-! ### The caller -/

/-- `ArgumentConfiguration`. -/
structure ArgumentConfiguration where
  invocation : Option Invocation

namespace ArgumentConfiguration

/-- `ArgumentConfiguration::new`. -/
def new (invocation : Invocation) : ArgumentConfiguration where
  invocation := some invocation

/-- `argument`, given what `to_json_value` makes of the value. -/
def argument (c : ArgumentConfiguration) (data : Except String Value) : ArgumentConfiguration :=
  match c.invocation with
  -- an argument that cannot be serialized is only logged
  | some invocation => { invocation := some (invocation.withArgument data).1 }
  | none => c

/-- `build_invocation`; without an invocation it panics. -/
def buildInvocation (c : ArgumentConfiguration) : Option Invocation :=
  c.invocation

/-- A user's closure appends arguments. -/
def configure (c : ArgumentConfiguration) (calls : List (Except String Value)) :
    ArgumentConfiguration :=
  calls.foldl argument c

end ArgumentConfiguration

/-- The invocation that a call starts from; `send` has no id. -/
def Invocation.start (target key : String) : CallKind → Invocation
  | .invoke => (createSingle target).withInvocationId key
  | .enumerate => (createMultiple target).withInvocationId key
  | .send => createSingle target

/-- The request of a call, with its arguments if the user gave a closure. -/
def request (kind : CallKind) (target key : String)
    (configuration : Option (List (Except String Value))) : Option Invocation :=
  match configuration with
  | none => some (.start target key kind)
  | some calls =>
      ((ArgumentConfiguration.new (.start target key kind)).configure calls).buildInvocation

/-- The arguments that could be serialized. -/
def serialized (configuration : Option (List (Except String Value))) : List Value :=
  (configuration.getD []).filterMap Except.toOption

/-! ### The callback -/

/-- The texts that the standard library and `serde_json` write: a JSON value
(`Value::to_string`), and a text or nothing in a debug format (`{:?}`). -/
structure Formatter where
  display : Value → String
  debug : Option String → String

/-- `serde_json::Value::as_str`. -/
def Value.jsonStr : Value → Option String
  | .str s => some s
  | _ => none

/-- `InvocationContext`, less its client handle. -/
structure InvocationContext where
  invocation : Invocation

namespace InvocationContext

variable {R : Type}

/-- `InvocationContext::create`. -/
def create (invocation : Invocation) : InvocationContext where
  invocation := invocation

/-- `MessageParser::parse_message`. -/
def parseMessage (S : Serde) (decode : Value → Option R) (message : String) : Except String R :=
  match (S.fromStr message).bind decode with
  | some r => .ok r
  | none => .error (S.errorText (asBytes message))

/-- `InvocationContext::argument`. -/
def argument (S : Serde) (F : Formatter) (decode : Value → Option R) (c : InvocationContext)
    (index : Nat) : Except String R :=
  match c.invocation.arguments with
  | none => .error "There are no arguments for the invocation"
  | some arguments =>
      match arguments[index]? with
      | none => .error ("The argument does not exist at the given index " ++ toString index)
      | some arg =>
          match parseMessage S decode (F.display arg) with
          | .ok r => .ok r
          | .error _ =>
              .error ("The argument cannot be deserialized to the requested type "
                ++ F.debug arg.jsonStr)

/-- `InvocationContext::complete`, up to the `send_direct` of the completion. -/
def complete (c : InvocationContext) (result : V) : Except String (Completion V) :=
  match c.invocation.id with
  | none =>
      .error "The completion cannot be sent, because there was no invocation id for the call"
  | some invocationId => .ok (.createResult invocationId result)

end InvocationContext

/-! ### Requests -/

namespace ArgumentConfiguration

/-- A closure appends what can be serialized, in order, and touches nothing else. -/
theorem configure_new (m : Invocation) (calls : List (Except String Value)) :
    ((new m).configure calls).buildInvocation = some
      (calls.foldl (fun m data => (m.withArgument data).1) m) := by
  induction calls generalizing m with
  | nil => rfl
  | cons data calls ih => exact ih (m.withArgument data).1

end ArgumentConfiguration

theorem foldl_withArgument (m : Invocation) {args : List Value} (hargs : m.arguments = some args)
    (calls : List (Except String Value)) :
    calls.foldl (fun m data => (m.withArgument data).1) m
      = { m with arguments := some (args ++ calls.filterMap Except.toOption) } := by
  induction calls generalizing m args with
  | nil =>
      rw [List.filterMap_nil, List.append_nil, ← hargs]
      rfl
  | cons data calls ih =>
      rw [List.foldl_cons]
      cases data with
      | error e => exact ih m hargs
      | ok v =>
          have hnext : (m.withArgument (.ok v)).1.arguments = some (args ++ [v]) := by
            show some (m.arguments.getD [] ++ [v]) = _
            rw [hargs]
            rfl
          rw [ih _ hnext, List.append_assoc]
          rfl

/-- **The request of a call** carries exactly the arguments that could be serialized. -/
theorem request_eq (kind : CallKind) (target key : String)
    (configuration : Option (List (Except String Value))) :
    request kind target key configuration = some
      { Invocation.start target key kind with arguments := some (serialized configuration) } := by
  have hargs : (Invocation.start target key kind).arguments = some [] := by cases kind <;> rfl
  cases configuration with
  | none =>
      show some _ = some _
      rw [show serialized none = [] from rfl, ← hargs]
  | some calls =>
      show (ArgumentConfiguration.configure _ calls).buildInvocation = _
      rw [ArgumentConfiguration.configure_new, foldl_withArgument _ hargs]
      rfl

/-- What a callback gets for an index, given the arguments that were appended. -/
def argumentOutcome {R : Type} (F : Formatter) (decode : Value → Option R) (args : List Value)
    (index : Nat) : Except String R :=
  match args[index]? with
  | none => .error ("The argument does not exist at the given index " ++ toString index)
  | some v =>
      match decode v with
      | some r => .ok r
      | none =>
          .error ("The argument cannot be deserialized to the requested type " ++ F.debug v.jsonStr)

/-- A context of a request hands out what was appended, if the JSON crate reads its own
texts. -/
theorem InvocationContext.argument_of_arguments {R : Type} {S : Serde} {F : Formatter}
    {c : InvocationContext} {args : List Value} (hargs : c.invocation.arguments = some args)
    (hreads : ∀ v ∈ args, S.fromStr (F.display v) = some v) (decode : Value → Option R)
    (index : Nat) : c.argument S F decode index = argumentOutcome F decode args index := by
  rw [argument, argumentOutcome, hargs]
  rcases hv : args[index]? with - | v
  · simp [hv]
  · have hread := hreads v (List.mem_of_getElem? hv)
    simp only [hv, parseMessage, hread, Option.bind_some]
    cases decode v <;> rfl

/-! ### Calls of callbacks -/

/-- The call of a callback that an effect is. -/
def CellEffect.callbackCall : CellEffect V → Option (Nat × Invocation)
  | .call callback invocation => some (callback, invocation)
  | _ => none

theorem CellEffect.calls_applyAll (es : List (CellEffect V)) (h : Heap V) :
    (applyAll es h).log.filterMap Effect.callbackCall
      = h.log.filterMap Effect.callbackCall ++ es.filterMap callbackCall := by
  induction es generalizing h with
  | nil => exact (List.append_nil _).symm
  | cons e es ih =>
      show (applyAll es (apply h e)).log.filterMap _ = _
      rw [ih]
      cases e with
      | complete f r =>
          have hlog : (Heap.completionLog f r ((h.futures f).completeWith r).2).filterMap
              Effect.callbackCall = [] := by
            cases ((h.futures f).completeWith r).2 <;> rfl
          simp [apply, Heap.complete, hlog]
          rfl
      | enqueue st x =>
          have hlog : (Heap.wakeLog (V := V) st ((h.streams st).enqueue x).2).filterMap
              Effect.callbackCall = [] := by
            cases ((h.streams st).enqueue x).2 <;> rfl
          simp [apply, Heap.enqueue, hlog]
          rfl
      | call callback invocation =>
          simp [apply, Heap.call, callbackCall, Effect.callbackCall]

theorem Action.calls_effects (S : Serde) (m : RawMessage) (a : Action V) :
    (a.effects S m).filterMap CellEffect.callbackCall
      = match a with
        | .callback a => (m.invocation S).toList.map (a.callback.id, ·)
        | _ => [] := by
  cases a with
  | invocation a =>
      simp only [effects]
      split
      · cases a.completer <;> rfl
      · rfl
  | enumerable a =>
      simp only [effects]
      split
      · split <;> rfl
      · split <;> rfl
      · rfl
  | callback a =>
      simp only [effects]
      cases m.invocation S <;> rfl

theorem Action.calls_dropEffects (a : Action V) :
    a.dropEffects.filterMap CellEffect.callbackCall = [] := by
  cases a with
  | invocation a =>
      simp only [dropEffects]
      cases a.completer <;> rfl
  | _ => rfl

/-- A record calls the callback that it is routed to, and no other. -/
theorem calls_reaction (S : Serde) (key : String) (m : RawMessage) (x : Option (Action V)) :
    (reaction S key m x).effects.filterMap CellEffect.callbackCall
      = match x with
        | some (.callback a) => (m.invocation S).toList.map (a.callback.id, ·)
        | _ => [] := by
  rcases x with - | a
  · rfl
  · rw [reaction]
    split
    · rw [List.filterMap_append, Action.calls_effects, Action.calls_dropEffects, List.append_nil]
      cases a <;> rfl
    · rw [Action.calls_effects]
      cases a <;> rfl

namespace Storage

variable {S : Serde} {s : Storage V} {m : RawMessage} {target : String} {a : CallbackAction}

/-- The calls of callbacks with invocations of a target. -/
def receivedAt (s : Storage V) (target : String) : List (Nat × Invocation) :=
  s.calls.filter fun c => c.2.target = target

/-- The invocation of the target that a record holds. -/
def invocationOf (S : Serde) (target : String) (m : RawMessage) : Option Invocation :=
  (m.invocation S).filter fun i => i.target = target

/-- A record for the target calls its callback, any other record does not. -/
theorem receivedAt_processMessage (hp : s.poisoned = false)
    (hget : s.get target = some (.callback a)) (m : RawMessage) :
    (s.processMessage S m).1.receivedAt target
      = s.receivedAt target ++ (invocationOf S target m).toList.map (a.callback.id, ·) := by
  obtain ⟨key, hkey, -, hr⟩ | ⟨hnone, hsame⟩ := processMessage_reacts_or_same S s m
  · rw [receivedAt, calls, hr.heap, CellEffect.calls_applyAll, calls_reaction, List.filter_append]
    congr 1
    rcases hi : m.invocation S with - | i
    · rcases s.get key with - | (b | b | b) <;> simp [invocationOf, hi]
    · -- an invocation is routed by its target
      have htype := (RawMessage.invocation_eq_some hi).1
      have hkey' : key = i.target := by
        rw [RawMessage.routingKey, htype] at hkey
        simpa [hi] using hkey.symm
      by_cases ht : i.target = target
      · rw [hkey', ht, hget]
        simp [invocationOf, hi, Option.filter, ht]
      · rcases s.get key with - | (b | b | b) <;> simp [invocationOf, hi, ht]
  · have hi : m.invocation S = none := by
      rcases hnone with hkey | hp'
      · rcases hi : m.invocation S with - | i
        · rfl
        · rw [RawMessage.routingKey, (RawMessage.invocation_eq_some hi).1] at hkey
          simp [hi] at hkey
      · simp [hp] at hp'
    rw [hsame]
    simp [invocationOf, hi]

/-- **The run lemma of callbacks.**  Until one of them panics, a callback is called once
for each invocation of its target, in order. -/
theorem receivedAt_processAll {ms : List RawMessage} (hget : s.get target = some (.callback a))
    (hcalm : (s.processAll S ms).poisoned = false) :
    (s.processAll S ms).receivedAt target
      = s.receivedAt target ++ (ms.filterMap (invocationOf S target)).map (a.callback.id, ·) := by
  induction ms generalizing s with
  | nil => exact (List.append_nil _).symm
  | cons m ms ih =>
      have hp : s.poisoned = false := calm_of_processAll hcalm
      have hkept := get_processMessage_callback (S := S) m hget
      rw [processAll_cons] at hcalm ⊢
      rw [ih hkept hcalm, receivedAt_processMessage hp hget, List.append_assoc]
      rcases hi : invocationOf S target m with - | i
      · rw [List.filterMap_cons_none hi]
        rfl
      · rw [List.filterMap_cons_some hi]
        rfl

end Storage

/-! ### From text frames to callbacks -/

/-- The message is not an invocation: it has no target to be read. -/
theorem Invocation.decode_eq_none {m : Message V} (h : (m.fields .json).lookup "target" = none) :
    Invocation.decode (m.value .json) = none := by
  rw [decode, m.record_value]
  simp [h, Value.required]

namespace Piece

variable {S : Serde} {T : Serializer Value}

/-- The invocations of a target in a record. -/
def requestsFor (S : Serde) (target : String) : Piece V → List Invocation
  | .message (.invocation m) _ => if m.type = .invocation ∧ m.target = target then [m] else []
  | .message _ _ => []
  | .foreign text =>
      ((readRecord S .json (asBytes text)).bind (Storage.invocationOf S target)).toList

/-- The calls of a record carry the invocations in it. -/
theorem filterMap_calls {p : Piece V} (h : p.Valid S T) (target : String) :
    (p.calls S).filterMap (Storage.invocationOf S target) = p.requestsFor S target := by
  have hother : ∀ {m : Message V} {text : String}, Valid S T (.message m text) →
      (m.fields .json).lookup "target" = none →
      ((Piece.message m text).calls S).filterMap (Storage.invocationOf S target) = [] := by
    intro m text h htarget
    have hdec : ∀ i, deserialize S Invocation.decode (asBytes text) .json ≠ .ok i := by
      intro i hi
      rw [deserialize_eq_ok_iff, wireValue, fromUtf8_asBytes] at hi
      have hread : S.fromStr text = some (m.value .json) := h.2.read
      rw [Option.bind_some, hread, Option.bind_some, Invocation.decode_eq_none htarget] at hi
      simp at hi
    have hnone : RawMessage.invocation S ⟨asBytes text, m.type, .json⟩ = none := by
      rcases hi : RawMessage.invocation S ⟨asBytes text, m.type, .json⟩ with - | i
      · rfl
      · exact absurd (RawMessage.invocation_eq_some hi).2 (hdec i)
    simp [calls, Storage.invocationOf, hnone]
  rcases p with ⟨m, text⟩ | text
  · cases m with
    | invocation m =>
        have hread : deserialize S Invocation.decode (asBytes text) .json = .ok m :=
          (seen h).readBack
        have hinv : RawMessage.invocation S ⟨asBytes text, m.type, .json⟩
            = if m.type = .invocation then some m else none := by
          rw [RawMessage.invocation]
          cases m.type <;> simp [hread, Except.toOption]
        show [(⟨asBytes text, m.type, .json⟩ : RawMessage)].filterMap _
          = if m.type = .invocation ∧ m.target = target then [m] else []
        generalize (⟨asBytes text, m.type, .json⟩ : RawMessage) = record at hinv
        by_cases htype : m.type = .invocation
        · by_cases htarget : m.target = target
          · simp [Storage.invocationOf, hinv, htype, htarget, Option.filter]
          · simp [Storage.invocationOf, hinv, htype, htarget, Option.filter]
        · simp [Storage.invocationOf, hinv, htype]
    | streamItem payload m => exact hother h rfl
    | completion payload m => exact hother h rfl
    | ping => exact hother h rfl
  · show ((readRecord S .json (asBytes text)).toList).filterMap _ = _
    rw [requestsFor]
    rcases readRecord S .json (asBytes text) with - | m
    · rfl
    · show [m].filterMap _ = _
      rcases hi : Storage.invocationOf S target m with - | i <;> simp [hi]

end Piece

theorem filterMap_flatMap_calls {S : Serde} {T : Serializer Value} {pieces : List (Piece V)}
    (h : ∀ p ∈ pieces, p.Valid S T) (target : String) :
    (pieces.flatMap (Piece.calls S)).filterMap (Storage.invocationOf S target)
      = pieces.flatMap (Piece.requestsFor S target) := by
  induction pieces with
  | nil => rfl
  | cons p pieces ih =>
      rw [List.flatMap_cons, List.filterMap_append, List.flatMap_cons,
        Piece.filterMap_calls (h p List.mem_cons_self),
        ih fun q hq => h q (List.mem_cons_of_mem p hq)]

/-- The reader's calls for text frames of valid records. -/
theorem readerCalls_textFrames {S : Serde} {T : Serializer Value} (protocol : Protocol)
    (hempty : S.fromStr "" = none) {frames : List (List (Piece V))}
    (h : ∀ pieces ∈ frames, ∀ p ∈ pieces, p.Valid S T) :
    readerCalls S protocol (frames.map textFrame) = frames.flatten.flatMap (Piece.calls S) := by
  induction frames with
  | nil => rfl
  | cons pieces frames ih =>
      have ih := ih fun ps hps => h ps (List.mem_cons_of_mem _ hps)
      rw [List.map_cons, List.flatten_cons, List.flatMap_append, ← ih,
        ← frameCalls_textFrame protocol hempty (h pieces List.mem_cons_self)]
      rfl

/-- **Requests reach their callback.**  However valid records are grouped into text
frames, and until a callback panics, the callback of a target is called once for each
invocation of the target, in order.  For a request of the library that is the request
itself, and the context hands out, index by index, the arguments that the caller's
closure could append. -/
theorem requests_reach_callback {S : Serde} {T : Serializer Value} {F : Formatter}
    (protocol : Protocol) (hempty : S.fromStr "" = none) {frames : List (List (Piece V))}
    (hvalid : ∀ pieces ∈ frames, ∀ p ∈ pieces, p.Valid S T) {s : Storage V} {target : String}
    {a : CallbackAction} (hget : s.get target = some (.callback a))
    (hcalm : (s.processAll S (readerCalls S protocol (frames.map textFrame))).poisoned = false) :
    (s.processAll S (readerCalls S protocol (frames.map textFrame))).receivedAt target
        = s.receivedAt target
          ++ (frames.flatten.flatMap (Piece.requestsFor S target)).map (a.callback.id, ·) ∧
      ∀ kind key configuration m, kind ≠ .enumerate →
        request kind target key configuration = some m →
        (∀ text, (Piece.message (.invocation m) text : Piece V).requestsFor S target = [m]) ∧
          ((∀ v ∈ serialized configuration, S.fromStr (F.display v) = some v) →
            ∀ {R : Type} (decode : Value → Option R) index,
              (InvocationContext.create m).argument S F decode index
                = argumentOutcome F decode (serialized configuration) index) := by
  constructor
  · have hcalls := readerCalls_textFrames protocol hempty hvalid
    have hall : ∀ p ∈ frames.flatten, p.Valid S T := by
      intro p hp
      obtain ⟨pieces, hpieces, hp⟩ := List.mem_flatten.mp hp
      exact hvalid pieces hpieces p hp
    rw [Storage.receivedAt_processAll hget hcalm, hcalls, filterMap_flatMap_calls hall]
  · intro kind key configuration m hkind hm
    rw [request_eq] at hm
    obtain rfl := Option.some.inj hm
    refine ⟨fun text => if_pos ?_, fun hreads R decode index =>
      InvocationContext.argument_of_arguments rfl hreads decode index⟩
    cases kind with
    | invoke => exact ⟨rfl, rfl⟩
    | enumerate => exact absurd rfl hkind
    | send => exact ⟨rfl, rfl⟩

/-- The request `add(1)` of a call of `send`. -/
def addOne : Invocation :=
  { Invocation.createSingle "add" with arguments := some [.int 1] }

/-- What it is written as. -/
def addOneText : String :=
  "\x7b\"type\":1,\"target\":\"add\",\"arguments\":[1]\x7d"

/-- The crates on that text, and on its argument. -/
def addOneSerde : Serde :=
  .ofTable
    [(addOneText, .obj [("type", .int 1), ("target", .str "add"), ("arguments", .arr [.int 1])]),
      ("1", .int 1)]
    []

def addOneWriter : Serializer Value where
  toStr
    | .obj [("type", .int 1), ("target", .str "add"), ("arguments", .arr [.int 1])] =>
        .ok addOneText
    | _ => .error "unsupported"
  toVec _ := .error "unsupported"

def addOneFormatter : Formatter where
  display
    | .int 1 => "1"
    | _ => ""
  debug _ := "None"

/-- A storage with a callback for `add`. -/
def addListener : Storage Int :=
  (Storage.newWithDeferredMessageCapacity 8).insert "add"
    (.callback { target := "add", callback := idleCallback })

/-- One frame: the request, and a record that is not JSON. -/
def addOneFrames : List (List (Piece Int)) :=
  [[.message (.invocation addOne) addOneText, .foreign "oops"]]

theorem addOneFrames_valid :
    ∀ pieces ∈ addOneFrames, ∀ p ∈ pieces, p.Valid addOneSerde addOneWriter := by
  intro pieces hpieces p hp
  rw [List.mem_singleton.mp hpieces] at hp
  rcases List.mem_pair.mp hp with rfl | rfl
  · refine ⟨?_, rfl, rfl, by decide⟩
    intro args hargs v hv
    obtain rfl := Option.some.inj (show some [Value.int 1] = some args from hargs)
    rw [List.mem_singleton.mp hv]
    rfl
  · show recordSeparator ∉ "oops".toList
    decide

theorem requests_reach_callback_add :
    (addListener.processAll addOneSerde
        (readerCalls addOneSerde .json (addOneFrames.map textFrame))).receivedAt "add"
      = addListener.receivedAt "add"
        ++ (addOneFrames.flatten.flatMap (Piece.requestsFor addOneSerde "add")).map (0, ·) ∧
    ∀ kind key configuration m, kind ≠ .enumerate →
      request kind "add" key configuration = some m →
      (∀ text, (Piece.message (.invocation m) text : Piece Int).requestsFor addOneSerde "add"
          = [m]) ∧
        ((∀ v ∈ serialized configuration,
            addOneSerde.fromStr (addOneFormatter.display v) = some v) →
          ∀ {R : Type} (decode : Value → Option R) index,
            (InvocationContext.create m).argument addOneSerde addOneFormatter decode index
              = argumentOutcome addOneFormatter decode (serialized configuration) index) := by
  have hget : ∀ k b, addListener.get k = some (.callback b) → b = ⟨"add", idleCallback⟩ := by
    intro k b hb
    by_cases hk : k = "add"
    · subst hk
      exact (Action.callback.inj (Option.some.inj hb)).symm
    · rw [addListener, Storage.get_insert_of_ne hk] at hb
      exact absurd hb (by simp [Storage.get, Storage.newWithDeferredMessageCapacity])
  refine requests_reach_callback (a := ⟨"add", idleCallback⟩) .json rfl addOneFrames_valid rfl ?_
  -- the other record causes no call, and the callback does not panic
  have hcalls : addOneFrames.flatten.flatMap (Piece.calls addOneSerde)
      = [⟨asBytes addOneText, .invocation, .json⟩] := by
    show _ :: ((Piece.foreign "oops" : Piece Int).calls addOneSerde ++ []) = _
    rw [Piece.calls_malformed rfl]
    rfl
  rw [readerCalls_textFrames .json rfl addOneFrames_valid, hcalls]
  refine Storage.processMessage_calm fun hpanic => ?_
  obtain ⟨-, b, invocation, -, -, hb, hpanics⟩ := Storage.processMessage_panic hpanic
  rw [hget _ b hb] at hpanics
  exact Bool.noConfusion hpanics

/-! ### Completions -/

namespace Storage

variable {S : Serde} {s : Storage V} {m : RawMessage} {key : String} {a : InvocationAction V}
  {f : Nat} {r : Except String V}

/-- **The run lemma of an answer.**  The first record that answers a call resolves it, and
nothing else does. -/
theorem Waits.processAll_answer {before after : List RawMessage} (hw : s.Waits key a f)
    (hi : s.view.Inv) (hbefore : ∀ x ∈ before, x.answer S key a.decode = none)
    (hcalm : (s.processAll S before).poisoned = false)
    (hanswer : m.answer S key a.decode = some r) (r' : Except String V) :
    .resolved f r' ∈ (s.processAll S (before ++ m :: after)).heap.log ↔ r' = r := by
  induction before generalizing s with
  | nil =>
      have hresolved := hw.processMessage (S := S) hi hcalm m
      rw [hanswer] at hresolved
      have htouches := foldl_touches (fun s m => processMessage_touches S s m) (m :: after) s
      have hlog := View.Touches.log_prefix
        (foldl_touches (fun s m => processMessage_touches S s m) after (s.processMessage S m).1)
      constructor
      · intro hr'
        exact ((View.Touches.inv hi htouches).heap.logged f).result_unique hr'
          (hlog.subset hresolved)
      · rintro rfl
        exact hlog.subset hresolved
  | cons x before ih =>
      have hp : s.poisoned = false := calm_of_processAll hcalm
      have hget := hw.processMessage (S := S) hi hp x
      rw [hbefore x List.mem_cons_self] at hget
      rw [List.cons_append, processAll_cons]
      exact ih ⟨hget, hw.completer⟩ (View.Touches.inv hi (processMessage_touches S s x))
        (fun y hy => hbefore y (List.mem_cons_of_mem x hy)) hcalm

end Storage

/-- A completion answers the call with its id, for a caller of the same type. -/
theorem Piece.answer_completion {S : Serde} {T : Serializer Value} {payload : Payload V}
    {c : Completion V} {text : String} (h : Valid S T (.message (.completion payload c) text))
    (htype : c.type = .completion) :
    RawMessage.answer S ⟨asBytes text, c.type, .json⟩ c.invocationId payload.decode
      = some c.intoResult := by
  obtain ⟨i, hi, hid⟩ := (seen h).routed
  have hread : deserialize S (Completion.decode payload.decode) (asBytes text) .json = .ok c :=
    (seen h).readBack
  have hkey : RawMessage.routingKey S ⟨asBytes text, c.type, .json⟩ = some c.invocationId := by
    rw [RawMessage.routingKey, htype]
    show (deserialize S PossibleInvocation.decode (asBytes text) .json).toOption.bind _ = _
    rw [hi]
    exact hid
  rw [RawMessage.answer, if_pos ⟨htype, hkey⟩, hread]
  rfl

/-- **Completions reach their caller.**  Of an invocation that `invoke` sends, the callback
can make a completion with any result.  However valid records are grouped into text
frames, if the completion is among them, no record before it answers the call and no
callback has panicked by then, the caller's future is resolved with the result and
nothing else. -/
theorem completion_reaches_caller {S : Serde} {T : Serializer Value} (protocol : Protocol)
    (hempty : S.fromStr "" = none) {capacity : Nat} {s : Storage V}
    (h : Reaches (Storage.step S) (Storage.Routed S)
      (Storage.newWithDeferredMessageCapacity capacity) s)
    {key : String} {a : InvocationAction V} {f : Nat} (hw : s.Waits key a f)
    {target : String} {configuration : Option (List (Except String Value))} {m : Invocation}
    (hm : request .invoke target key configuration = some m) (result : V) :
    ∃ c, (InvocationContext.create m).complete result = .ok c ∧
      ∀ (payload : Payload V) (text : String) (frames : List (List (Piece V)))
        (before after : List (Piece V)),
        payload.decode = a.decode → (∀ pieces ∈ frames, ∀ p ∈ pieces, p.Valid S T) →
        frames.flatten = before ++ .message (.completion payload c) text :: after →
        (∀ x ∈ before.flatMap (Piece.calls S), x.answer S key a.decode = none) →
        (s.processAll S (before.flatMap (Piece.calls S))).poisoned = false →
        ∀ r, .resolved f r
            ∈ (s.processAll S (readerCalls S protocol (frames.map textFrame))).heap.log
          ↔ r = .ok result := by
  rw [request_eq] at hm
  obtain rfl := Option.some.inj hm
  refine ⟨.createResult key result, rfl, ?_⟩
  intro payload text frames before after hdecode hvalid hflat hbefore hcalm r
  have hpiece :
      (Piece.message (.completion payload (.createResult key result)) text).Valid S T := by
    have hmem : Piece.message (.completion payload (.createResult key result)) text
        ∈ frames.flatten := by
      rw [hflat]
      exact List.mem_append_right _ List.mem_cons_self
    obtain ⟨pieces, hpieces, hp⟩ := List.mem_flatten.mp hmem
    exact hvalid pieces hpieces _ hp
  have hanswer := Piece.answer_completion hpiece rfl
  rw [hdecode] at hanswer
  rw [readerCalls_textFrames protocol hempty hvalid, hflat, List.flatMap_append]
  exact hw.processAll_answer (Storage.sound_of_reaches h).view hbefore hcalm hanswer r

/-- The result 3 of the call `add_1`, as it is written. -/
def threeText : String :=
  "\x7b\"type\":3,\"invocationId\":\"add_1\",\"result\":3\x7d"

def threeSerde : Serde :=
  .ofTable
    [(threeText, .obj [("type", .int 3), ("invocationId", .str "add_1"), ("result", .int 3)])] []

def threeWriter : Serializer Value where
  toStr
    | .obj [("type", .int 3), ("invocationId", .str "add_1"), ("result", .int 3)] => .ok threeText
    | _ => .error "unsupported"
  toVec _ := .error "unsupported"

/-- The storage of a caller of `add`. -/
def addCaller : Storage Int :=
  (Storage.newWithDeferredMessageCapacity 8).run threeSerde (.addInvocation "add_1" .i64)

theorem completion_reaches_caller_three :
    (InvocationContext.create (.start "add" "add_1" .invoke)).complete (3 : Int)
      = .ok (.createResult "add_1" 3) ∧
    ∀ r, .resolved 0 r ∈ (addCaller.processAll threeSerde (readerCalls threeSerde .json
        ([[.foreign "oops"],
          [.message (.completion intPayload (.createResult "add_1" 3)) threeText]].map
            textFrame))).heap.log
      ↔ r = .ok 3 := by
  have hreach : Reaches (Storage.step threeSerde) (Storage.Routed threeSerde)
      (Storage.newWithDeferredMessageCapacity 8) addCaller :=
    .head (.addInvocation "add_1" .i64) trivial rfl (.refl _)
  have hrequest : request .invoke "add" "add_1" none = some (.start "add" "add_1" .invoke) := rfl
  obtain ⟨c, hc, hr⟩ := completion_reaches_caller (T := threeWriter) .json rfl hreach
    (a := (InvocationAction.new "add_1" .i64 .empty).1) (f := 0) ⟨rfl, rfl⟩ hrequest 3
  obtain rfl := Except.ok.inj hc
  have hother : (Piece.foreign "oops" : Piece Int).calls threeSerde = [] :=
    Piece.calls_malformed rfl
  have hbefore : [Piece.foreign "oops"].flatMap (Piece.calls (V := Int) threeSerde) = [] := by
    rw [List.flatMap_singleton, hother]
  refine ⟨hc, hr intPayload threeText _ [.foreign "oops"] [] rfl ?_ rfl ?_ ?_⟩
  · intro pieces hpieces p hp
    rcases List.mem_pair.mp hpieces with rfl | rfl <;> rw [List.mem_singleton.mp hp]
    · show recordSeparator ∉ "oops".toList
      decide
    · refine ⟨?_, rfl, rfl, by decide⟩
      intro n hn
      obtain rfl := Option.some.inj hn
      exact ⟨rfl, nofun⟩
  · rw [hbefore]
    exact fun x hx => absurd hx List.not_mem_nil
  · rw [hbefore]
    rfl

end SignalR
