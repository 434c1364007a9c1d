import EnvoyWasmFilters.TransformationFilter.Reconfiguration
import EnvoyWasmFilters.TransformationFilter.RouteSelection

/-!
# Streams and the rules they point into

The host delivers, in any order, configurations to the root context and header callbacks to the
contexts of any number of streams.  A stream takes its `RouteTransformers` pointer when its request
headers arrive and uses it when its response headers arrive; a configuration delivered in between may
have destroyed what it points into.

`Host.Sound` is what ought to hold in every state: no stream's pointer dangles, and the response
callback of a stream applies the response transformer of the rule that stream's request headers
selected.  `sound_iff_guarded` says exactly in which runs it does.
-/

namespace EnvoyWasmFilters.TransformationFilter

open Inja

variable {R J : Type} [StdRegex R] [NlohmannJson J] [InjaRenderer J]
  (jsonStringToMessage : Str → Except Str Config)

/-- A stream: its context, whether its request headers have arrived, and the transformers they
selected on arrival.  Until then the context is as the host created it. -/
structure HttpStream (R J : Type) where
  context : TransformationContext := {}
  requested : Bool := false
  selected : Option (RouteTransformers R J) := none
  fresh : requested = false → context = {}

/-- A stream the host has just created. -/
def HttpStream.created : HttpStream R J := { fresh := fun _ => rfl }

/-- The root context and the streams that exist. -/
structure Host (R J : Type) where
  root : RootContext R J := {}
  streams : ℕ → Option (HttpStream R J) := fun _ => none

/-- What the host may do next. -/
inductive HostEvent where
  | configure (conf : Configuration)
  | create (id : ℕ)
  | requestHeaders (id : ℕ) (pairs : HeaderMap)
  | responseHeaders (id : ℕ) (pairs : HeaderMap)
  | delete (id : ℕ)
deriving DecidableEq

/-- The stream `id` becomes `stream`, or goes. -/
def Host.setStream (host : Host R J) (id : ℕ) (stream : Option (HttpStream R J)) : Host R J :=
  { host with streams := fun i => if i = id then stream else host.streams i }

/-- A stream after its request headers have arrived, which they do once. -/
def HttpStream.request (root : RootContext R J) (pairs : HeaderMap) (stream : HttpStream R J) :
    Option (HttpStream R J) :=
  if stream.requested then some stream
  else (stream.context.onRequestHeaders root pairs).map fun result =>
    { context := result.2, requested := true, selected := root.selectedRoute pairs
      fresh := fun h => absurd h (by decide) }

/-- One event.  Response headers change no context; what their callback does is part of
`Host.Sound`. -/
def Host.step (host : Host R J) : HostEvent → Host R J
  | .configure conf => { host with root := (host.root.onConfigure jsonStringToMessage conf).root }
  | .create id => if (host.streams id).isSome then host else host.setStream id (some .created)
  | .requestHeaders id pairs =>
      match (host.streams id).bind (HttpStream.request host.root pairs) with
      | none => host
      | some stream => host.setStream id (some stream)
  | .responseHeaders _ _ => host
  | .delete id => host.setStream id none

/-- A stream whose pointer does not dangle and whose response callback does what the request headers
selected. -/
def HttpStream.Sound (root : RootContext R J) (stream : HttpStream R J) : Prop :=
  (∀ pointer ∈ stream.context.transformation, ∃ route, root.deref pointer = some route) ∧
    ∀ pairs, stream.context.onResponseHeaders root pairs
      = some (applyTransformer "response" (stream.selected.bind RouteTransformers.response) pairs)

/-- Every stream that exists is sound. -/
def Host.Sound (host : Host R J) : Prop :=
  ∀ id stream, host.streams id = some stream → stream.Sound host.root

/-- A step that keeps what streams point into: a message for the root context arrives only while no
stream holds a pointer. -/
def Host.Quiet (host : Host R J) (event : HostEvent) : Prop :=
  ∀ conf config, event = .configure conf → conf.IsMessage jsonStringToMessage config →
    ∀ id stream, host.streams id = some stream → stream.context.transformation = none

/-! ### Pointers -/

omit [StdRegex R] [NlohmannJson J] [InjaRenderer J] in
/-- A pointer into a value that has since been replaced dangles. -/
theorem deref_replaced {root : RootContext R J} {pointer : RoutePointer}
    {route : RouteTransformers R J} (h : root.deref pointer = some route)
    (value : Option (TransformationConfig R J)) :
    RootContext.deref ⟨value, root.generation + 1⟩ pointer = none := by
  have hgen : root.generation = pointer.generation := by
    by_contra hne
    rw [RootContext.deref, if_neg hne] at h
    exact absurd h (by simp)
  rw [RootContext.deref, if_neg]
  show root.generation + 1 ≠ pointer.generation
  omega

omit [StdRegex R] [NlohmannJson J] [InjaRenderer J] in
theorem setStream_eq (host : Host R J) (id i : ℕ) (stream : Option (HttpStream R J)) :
    (host.setStream id stream).streams i = if i = id then stream else host.streams i := rfl

/-- A stream without a pointer is sound under every root context or under none. -/
theorem sound_of_no_pointer {root root' : RootContext R J} {stream : HttpStream R J}
    (h : stream.Sound root) (hnone : stream.context.transformation = none) :
    stream.Sound root' := by
  refine ⟨fun pointer hpointer => ?_, fun pairs => ?_⟩
  · rw [hnone] at hpointer
    exact absurd hpointer (by simp)
  · have hroot := h.2 pairs
    rw [TransformationContext.onResponseHeaders, hnone] at hroot ⊢
    exact hroot

/-- A new stream is sound. -/
theorem sound_created (root : RootContext R J) : (HttpStream.created : HttpStream R J).Sound root :=
  ⟨fun pointer hpointer => absurd hpointer (by simp [HttpStream.created]), fun _ => rfl⟩

/-- **The request step.**  After its request headers a stream holds a pointer to the rule they
selected, or none if they selected no rule. -/
theorem sound_request {root : RootContext R J} {stream stream' : HttpStream R J} {pairs : HeaderMap}
    (hsound : stream.Sound root) (h : stream.request root pairs = some stream') :
    stream'.Sound root := by
  simp only [HttpStream.request] at h
  cases hreq : stream.requested with
  | true =>
    rw [hreq, if_pos rfl] at h
    rw [← Option.some.inj h]
    exact hsound
  | false =>
    rw [hreq, if_neg (by decide), stream.fresh hreq, TransformationContext.onRequestHeaders] at h
    cases hconfig : root.transformationConfig with
    | none =>
      rw [hconfig] at h
      rw [← Option.some.inj h]
      have hselected : root.selectedRoute pairs = none := by
        rw [RootContext.selectedRoute, hconfig]
        rfl
      rw [hselected]
      exact ⟨fun pointer hpointer => absurd hpointer (by simp), fun _ => rfl⟩
    | some config =>
      cases hindex : config.getRouteTransformation pairs with
      | none =>
        simp only [hconfig, hindex, Option.map_some, Option.some.injEq] at h
        rw [← h]
        have hselected : root.selectedRoute pairs = none := by
          rw [RootContext.selectedRoute, hconfig, Option.bind_some, hindex]
          rfl
        rw [hselected]
        exact ⟨fun pointer hpointer => absurd hpointer (by simp), fun _ => rfl⟩
      | some index =>
        obtain ⟨route, hderef, hselected⟩ := deref_selected hconfig hindex
        simp only [hconfig, hindex, hderef, hselected, Option.bind_eq_bind, Option.bind_some,
          Option.pure_def, Option.map_some, Option.some.injEq] at h
        rw [← h]
        refine ⟨fun pointer hpointer => ⟨route, ?_⟩, fun pairs' => ?_⟩
        · obtain rfl : _ = pointer := Option.some.inj hpointer
          exact hderef
        · show (root.deref ⟨root.generation, index⟩).bind _ = _
          rw [hderef]
          rfl

/-- Setting one stream to a sound one keeps all sound. -/
theorem sound_setStream {host : Host R J} (h : host.Sound) (id : ℕ) {stream : Option (HttpStream R J)}
    (hstream : ∀ s ∈ stream, s.Sound host.root) : (host.setStream id stream).Sound := by
  intro i s hs
  rw [setStream_eq] at hs
  by_cases hi : i = id
  · rw [if_pos hi] at hs
    exact hstream s hs
  · rw [if_neg hi] at hs
    exact h i s hs

/-! ### Runs -/

variable {jsonStringToMessage}

/-- A configuration keeps the streams sound exactly if it is no message or no stream holds a pointer. -/
theorem sound_configure_iff {host : Host R J} (h : host.Sound) (conf : Configuration) :
    (host.step jsonStringToMessage (.configure conf)).Sound ↔
      host.Quiet jsonStringToMessage (.configure conf) := by
  have hkept : ∀ config, conf.IsMessage jsonStringToMessage config →
      ∃ value, (host.root.onConfigure jsonStringToMessage conf).root
        = ⟨value, host.root.generation + 1⟩ := by
    intro config hmsg
    rcases onConfigure_cases jsonStringToMessage host.root conf with
      ⟨hnull, -, -⟩ | ⟨hrefused, -, -⟩ | ⟨-, -, -, -, -, hroot⟩ | ⟨-, value, -, -, -, hroot⟩
    · exact absurd hnull (isMessage_not_null hmsg)
    · exact absurd hrefused (isMessage_not_refused hmsg)
    · exact ⟨none, hroot⟩
    · exact ⟨some value, hroot⟩
  constructor
  · -- a stream with a pointer would be left with a dangling one
    intro hsound conf' config hconf hmsg id stream hstream
    obtain rfl : conf = conf' := by simpa using hconf
    obtain ⟨value, hroot⟩ := hkept config hmsg
    cases hpointer : stream.context.transformation with
    | none => rfl
    | some pointer =>
      obtain ⟨route, hderef⟩ := (h id stream hstream).1 pointer hpointer
      obtain ⟨route', hderef'⟩ := (hsound id stream hstream).1 pointer hpointer
      have hdangling := deref_replaced hderef value
      rw [← hroot] at hdangling
      exact absurd (hdangling.symm.trans hderef') (by simp)
  · intro hquiet id stream hstream
    rcases configuration_cases jsonStringToMessage conf with hnull | hrefused | ⟨config, hmsg⟩
    · show stream.Sound (host.root.onConfigure jsonStringToMessage conf).root
      rw [(onConfigure_null host.root conf hnull).2]
      exact h id stream hstream
    · obtain ⟨text, status, rfl, hstatus⟩ := hrefused
      show stream.Sound (host.root.onConfigure jsonStringToMessage (.data text)).root
      rw [(onConfigure_rejected host.root hstatus).2]
      exact h id stream hstream
    · exact sound_of_no_pointer (h id stream hstream) (hquiet conf config rfl hmsg id stream hstream)

/-- **One event** keeps the streams sound exactly when it is quiet. -/
theorem sound_step_iff (host : Host R J) (event : HostEvent) (h : host.Sound) :
    (host.step jsonStringToMessage event).Sound ↔ host.Quiet jsonStringToMessage event := by
  have hquiet : (∀ conf, event ≠ .configure conf) → host.Quiet jsonStringToMessage event :=
    fun hne conf _ hconf => absurd hconf (hne conf)
  cases event with
  | configure conf => exact sound_configure_iff h conf
  | create id =>
    refine ⟨fun _ => hquiet (by simp), fun _ => ?_⟩
    show (if (host.streams id).isSome then host else host.setStream id (some .created)).Sound
    split
    · exact h
    · apply sound_setStream h id
      intro s hs
      rw [← Option.some.inj hs]
      exact sound_created host.root
  | requestHeaders id pairs =>
    refine ⟨fun _ => hquiet (by simp), fun _ => ?_⟩
    show (match (host.streams id).bind (HttpStream.request host.root pairs) with
      | none => host
      | some stream => host.setStream id (some stream)).Sound
    split
    · exact h
    · rename_i stream' hstream'
      obtain ⟨stream, hstream, hrequest⟩ := Option.bind_eq_some_iff.mp hstream'
      apply sound_setStream h id
      intro s hs
      rw [← Option.some.inj hs]
      exact sound_request (h id stream hstream) hrequest
  | responseHeaders id pairs => exact ⟨fun _ => hquiet (by simp), fun _ => h⟩
  | delete id =>
    exact ⟨fun _ => hquiet (by simp), fun _ => sound_setStream h id fun s hs => absurd hs (by simp)⟩

/-- **Runs.**  From a host without streams, every stream is sound in every state exactly when no
message for the root context arrives while a stream holds a pointer. -/
theorem sound_iff_guarded (events : List HostEvent) :
    GuardedRun.Throughout (Host.step jsonStringToMessage) Host.Sound ({} : Host R J) events ↔
      GuardedRun.Guarded (Host.step jsonStringToMessage) (Host.Quiet jsonStringToMessage)
        ({} : Host R J) events :=
  GuardedRun.invariant_iff_guarded _ sound_step_iff fun _ _ h => absurd h (by simp)

/-- A configuration with the rule `pathRule` alone, as the host hands it over. -/
def pathText : Str :=
  "\x7b\"transformations\":[\x7b\"match\":\x7b\"header_matchers\":[" ++
    "\x7b\"name\":\":path\",\"prefix_match\":\"/a\"\x7d," ++
    "\x7b\"name\":\":path\",\"suffix_match\":\"/b\"\x7d]\x7d\x7d]\x7d"

/-- The configuration again between the request headers and the response headers of a stream. -/
def reconfiguredStream : List HostEvent :=
  [.configure (.data pathText), .create 0, .requestHeaders 0 [(":path", "/a/b")],
   .configure (.data pathText)]

/-- The stream's pointer dangles, and its response callback has no result. -/
theorem reconfigured_stream_dangles :
    ¬ GuardedRun.Throughout (Host.step fun _ => .ok ⟨[pathRule]⟩) Host.Sound
        ({} : Host PlainRegex PlainJson) reconfiguredStream := by
  intro h
  have hlast := h reconfiguredStream (List.prefix_refl _)
  obtain ⟨stream, hstream, hpointer⟩ : ∃ stream : HttpStream PlainRegex PlainJson,
      (GuardedRun.run (Host.step fun _ => .ok ⟨[pathRule]⟩) {} reconfiguredStream).streams 0
        = some stream ∧ stream.context.transformation = some ⟨1, 0⟩ := ⟨_, rfl, rfl⟩
  obtain ⟨route, hroute⟩ := (hlast 0 stream hstream).1 ⟨1, 0⟩ hpointer
  have hdangling : (GuardedRun.run (Host.step fun _ => .ok ⟨[pathRule]⟩)
      ({} : Host PlainRegex PlainJson) reconfiguredStream).root.deref ⟨1, 0⟩ = none := rfl
  exact absurd (hdangling.symm.trans hroute) (by simp)

end EnvoyWasmFilters.TransformationFilter
