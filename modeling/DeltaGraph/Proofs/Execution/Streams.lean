import DeltaGraph.Execution.Pipeline
import DeltaGraph.Proofs.Effects

/-!
# What streams feed

A stream that ends feeds its tuples to whoever asks for them, with effects
between one tuple and the next.  Draining it runs these effects and hands the
tuples on, and a relay behind it feeds what it makes of each tuple.
-/

namespace DeltaGraph

variable {σ : Type}

/-- The effects of handing tuples to a consumer, one after another. -/
abbrev Feed (σ : Type) := (Binding → Execution σ Unit) → Execution σ Unit

theorem throw_bind {α β : Type} (error : Error) (next : α → Execution σ β) :
    (throw error >>= next : Execution σ β) = throw error := rfl

namespace TupleStream

/-- The requests from a state on have the effects of a feed between one tuple
and the next.  The last request finds no tuple. -/
inductive Feeds (stream : TupleStream σ) : stream.State → Feed σ → Prop
  | ends {state : stream.State} (effect : Execution σ Unit)
      (last : stream.next state = effect >>= fun _ => pure none) :
      Feeds stream state fun _ => effect
  | item {state later : stream.State} {tuple : Binding}
      {feed : Feed σ} (effect : Execution σ Unit)
      (next : stream.next state = effect >>=
        fun _ => pure (some (tuple, later)))
      (rest : Feeds stream later feed) :
      Feeds stream state fun consume =>
        effect >>= fun _ => consume tuple >>= fun _ => feed consume

theorem drain_eq_bind
    (stream : TupleStream σ)
    (consume : Binding → Execution σ Unit)
    (state : stream.State) :
    stream.drain consume state = stream.next state >>= fun
      | none => pure ()
      | some (tuple, rest) =>
          consume tuple >>= fun _ => stream.drain consume rest := by
  funext progress
  rw [drain, run_bind]
  cases stream.next state progress with
  | mk outcome later =>
      cases outcome with
      | error error => rfl
      | ok pulled =>
          cases pulled with
          | none => rfl
          | some pair =>
              obtain ⟨tuple, rest⟩ := pair
              simp only
              rw [run_bind]
              cases consume tuple later with
              | mk outcome last => cases outcome <;> rfl

namespace Feeds

variable {stream : TupleStream σ} {state other : stream.State} {feed : Feed σ}

/-- Draining a stream hands all its tuples on. -/
theorem drain_eq
    (feeds : stream.Feeds state feed)
    (consume : Binding → Execution σ Unit) :
    stream.drain consume state = feed consume := by
  induction feeds with
  | ends effect last =>
      rw [drain_eq_bind, last]
      simp
  | item effect next _ inductionHypothesis =>
      rw [drain_eq_bind, next]
      simp [inductionHypothesis]

/-- Effects before a request come before what the request feeds. -/
theorem after (feeds : stream.Feeds other feed) (effect : Execution σ Unit)
    (next : stream.next state = effect >>= fun _ => stream.next other) :
    stream.Feeds state fun consume => effect >>= fun _ => feed consume := by
  cases feeds with
  | ends ending last => exact .ends _ (by rw [next, last, bind_assoc])
  | item between found rest =>
      have feeds :
          stream.Feeds state fun consume =>
            (effect >>= fun _ => between) >>= fun _ =>
                consume _ >>= fun _ => _ :=
              .item _ (by rw [next, found, bind_assoc]) rest
      simpa only [bind_assoc] using feeds

theorem of_next_eq
    (feeds : stream.Feeds other feed)
    (next : stream.next state = stream.next other) :
    stream.Feeds state feed := by
  have feeds := feeds.after (pure ()) (next.trans (pure_bind _ _).symm)
  simpa only [pure_bind] using feeds

end Feeds

end TupleStream

namespace Relay

variable {relay : Relay σ} {input : TupleStream σ}

/-- A buffer gives tuples until none is left. -/
inductive Gives (relay : Relay σ) : relay.Buffer → List Binding → Prop
  | nothing {buffer : relay.Buffer} (spent : relay.take? buffer = none) :
      Gives relay buffer []
  | tuple {buffer left : relay.Buffer} {tuple : Binding} {rest : List Binding}
      (taken : relay.take? buffer = some (tuple, left))
      (gives : Gives relay left rest) :
      Gives relay buffer (tuple :: rest)

/-- What a tuple of the input leads to: effects and an error, or effects and a
buffer. -/
inductive Fills (relay : Relay σ) (Kept : relay.Memory → Prop) :
    Execution σ (relay.Buffer × relay.Memory) → Execution σ (List Binding) →
      Prop
  | fails (effect : Execution σ Unit) (error : Error) :
      Fills relay Kept (effect >>= fun _ => throw error)
        (effect >>= fun _ => throw error)
  | buffers (effect : Execution σ Unit) {buffer : relay.Buffer}
      {memory : relay.Memory}
      {tuples : List Binding} (gives : relay.Gives buffer tuples)
      (kept : Kept memory) :
      Fills relay Kept (effect >>= fun _ => pure (buffer, memory))
        (effect >>= fun _ => pure tuples)

/-- A relay makes tuples of each tuple of the input, whatever it has kept from
earlier ones. -/
structure Expands
    (relay : Relay σ)
    (expand : Binding → Execution σ (List Binding)) : Prop where
  fills : ∃ Kept : relay.Memory → Prop, Kept relay.blank ∧
    ∀ memory, Kept memory →
      ∀ base, relay.Fills Kept (relay.fill memory base) (expand base)

theorem advance_eq_bind
    (relay : Relay σ)
    (input : TupleStream σ)
    (state : relay.Standing input) :
    relay.advance input state =
      (match state.current.bind relay.take? with
        | some (tuple, left) =>
            pure (some (tuple, { state with current := some left }))
        | none => input.next state.input >>= fun
            | none => pure none
            | some (base, rest) =>
                relay.fill state.memory base >>= fun (buffer, memory) =>
                  relay.advance input ⟨rest, some buffer, memory⟩ :
        Execution σ (Option (Binding × relay.Standing input))) := by
  funext progress
  rw [advance]
  cases state.current.bind relay.take? with
  | some pair => rfl
  | none =>
      simp only
      rw [run_bind]
      cases input.next state.input progress with
      | mk outcome later =>
          cases outcome with
          | error error => rfl
          | ok pulled =>
              cases pulled with
              | none => rfl
              | some pair =>
                  obtain ⟨base, rest⟩ := pair
                  simp only
                  rw [run_bind]
                  cases relay.fill state.memory base later with
                  | mk outcome last => cases outcome <;> rfl

/-- The stream of a relay between two requests. -/
def state
    (relay : Relay σ)
    {input : TupleStream σ}
    (state : input.State)
    (current : Option relay.Buffer)
    (memory : relay.Memory) : (relay.onto input).State :=
  (⟨state, current, memory⟩ : relay.Standing input)

theorem next_of_taken
    (state : input.State)
    {buffer left : relay.Buffer}
    {tuple : Binding}
    (taken : relay.take? buffer = some (tuple, left))
    (memory : relay.Memory) :
    (relay.onto input).next (relay.state state (some buffer) memory) =
      pure (some (tuple, relay.state state (some left) memory)) := by
  refine (relay.advance_eq_bind input _).trans ?_
  simp only [Relay.state, Option.bind_some, taken]
  rfl

theorem next_of_spent (state : input.State) {current : Option relay.Buffer}
    (spent : current.bind relay.take? = none) (memory : relay.Memory) :
    (relay.onto input).next (relay.state state current memory) =
      input.next state >>= fun
        | none => pure none
        | some (base, rest) =>
            relay.fill memory base >>= fun (buffer, memory) =>
              (relay.onto input).next
                (relay.state rest (some buffer) memory) := by
  refine (relay.advance_eq_bind input _).trans ?_
  simp only [Relay.state, spent]
  rfl

theorem next_of_fresh (state : input.State) (memory : relay.Memory) :
    (relay.onto input).next (relay.state state none memory) =
      input.next state >>= fun
        | none => pure none
        | some (base, rest) =>
            relay.fill memory base >>= fun (buffer, memory) =>
              (relay.onto input).next (relay.state rest (some buffer) memory) :=
  next_of_spent state rfl memory

/-- A buffer is emptied before the input is asked again. -/
theorem Gives.feeds
    {buffer : relay.Buffer}
    {tuples : List Binding}
    (gives : relay.Gives buffer tuples)
    {state : input.State}
    {memory : relay.Memory}
    {feed : Feed σ}
    (feeds : (relay.onto input).Feeds (relay.state state none memory) feed) :
    (relay.onto input).Feeds (relay.state state (some buffer) memory)
      fun consume =>
        tuples.forM consume >>= fun _ => feed consume := by
  induction gives with
  | @nothing buffer spent =>
      have emptied : (some buffer).bind relay.take? = none := spent
      have next :=
        (next_of_spent state emptied memory).trans
          (next_of_fresh state memory).symm
      simpa using feeds.of_next_eq next
  | tuple taken _ inductionHypothesis =>
      have next := next_of_taken state taken memory
      simpa using TupleStream.Feeds.item (pure ())
        (next.trans (pure_bind _ _).symm)
        inductionHypothesis

/-- A relay feeds what it makes of the tuples that its input feeds. -/
theorem Expands.feeds {expand : Binding → Execution σ (List Binding)}
    (expands : relay.Expands expand) {state : input.State} {feed : Feed σ}
    (feeds : input.Feeds state feed) :
    (relay.onto input).Feeds (relay.state state none relay.blank) fun consume =>
      feed fun base => expand base >>= fun tuples => tuples.forM consume := by
  obtain ⟨Kept, blank, fills⟩ := expands.fills
  -- What is kept changes from one tuple to the next, so the induction is for
  -- all of it.
  suffices general : ∀ memory, Kept memory →
      (relay.onto input).Feeds (relay.state state none memory) fun consume =>
        feed fun base => expand base >>= fun tuples => tuples.forM consume from
    general _ blank
  induction feeds with
  | ends effect last =>
      intro memory _
      refine .ends effect ?_
      rw [next_of_fresh, last, bind_assoc]
      simp only [pure_bind]
  | @item state later base feed effect next rest inductionHypothesis =>
      intro memory kept
      have asked := relay.next_of_fresh state memory
      simp only [next, bind_assoc, pure_bind] at asked
      have filled := fills memory kept base
      revert asked filled
      beta_reduce
      generalize relay.fill memory base = filling
      generalize expand base = expanded
      intro asked filled
      cases filled with
      | fails failing error =>
          -- The stream ends with the failure, so what the input feeds next is
          -- never asked for.
          let ending : Execution σ Unit :=
            effect >>= fun _ => failing >>= fun _ => throw error
          have last : (relay.onto input).next (relay.state state none memory) =
              ending >>= fun _ => pure none := by
            simpa only [ending, bind_assoc, throw_bind] using asked
          simpa only [bind_assoc, throw_bind]
            using TupleStream.Feeds.ends ending last
      | @buffers filling buffer memory tuples gives kept =>
          have feeds := (gives.feeds (inductionHypothesis memory kept)).after
            (effect >>= fun _ => filling)
            (by simpa only [bind_assoc, pure_bind] using asked)
          simpa only [bind_assoc, pure_bind] using feeds

end Relay

end DeltaGraph
