import Nivara.Auth.Tickets
import Nivara.Lib.PubSub

/-!
# The alerts websocket

`publish_alert` and the loop of `ws_alerts` (`api/ws_alerts.py`, lines 52-61 and 89-141),
over the tickets: publishers, sockets and the Redis between them.

* `json.dumps(event, cls=_UUIDEncoder)` is a parameter; it raises for an event it cannot encode.
* Redis keeps the subscribers of a channel and sends each publication to all of them. A connection
  to Redis that breaks is made and subscribed again by its client: what was on the way and what is
  published meanwhile is lost.
* `poll i false` is a `get_message` to which nothing came in time, also when something is on the way.
* `minted`, `published`, `joined`, `started` and `lossy` are history.

Results:

* `feed_step`: each step is one of the feed of the sockets.
* `Traced.step`: the ticket of a socket was minted for its user.
* `Paced.step`: pings are half a minute apart.
* `alerts_of_run`: what a socket is sent.
-/

namespace Nivara.Notifications

open Auth ExpiringKeys PubSub Transition

/-! ## Model -/

/-- `_PING_INTERVAL_SECONDS`. -/
def pingInterval : ℤ := seconds 30

/-- `_channel_for`. -/
def channelFor (userId : UUID) : String := "ws:alerts:user:" ++ userId.str

/-- A text that is sent over a socket. -/
inductive Frame
  | alert (data : String)
  | ping
  deriving DecidableEq

def Frame.alert? : Frame → Option String
  | alert data => some data
  | ping => none

/-- The loop of a socket, by what it does next. -/
inductive Stream
  /-- `pubsub.subscribe(channel)`. -/
  | subscribe
  /-- `pubsub.get_message(...)`. -/
  | poll (userId : UUID) (lastPing : ℤ)
  /-- `websocket.send_text(data)`. -/
  | send (userId : UUID) (lastPing : ℤ) (data : String)
  /-- `now - last_ping >= _PING_INTERVAL_SECONDS`. -/
  | checkPing (userId : UUID) (lastPing : ℤ)
  | ended
  deriving DecidableEq

/-- The user and the time of the last ping, while the loop runs. -/
def Stream.running : Stream → Option (UUID × ℤ)
  | poll userId lastPing | send userId lastPing _ | checkPing userId lastPing => some (userId, lastPing)
  | subscribe | ended => none

/-- A message that has been taken and is not sent yet. -/
def Stream.taken : Stream → List String
  | send _ _ data => [data]
  | _ => []

structure AlertState (ι : Type) where
  tickets : TicketState ι
  /-- Whom each ticket was returned to. -/
  minted : List (String × UUID)
  /-- The sockets on a channel. -/
  subscribers : Subscribers String ι
  stream : ι → Stream
  /-- What Redis has sent to the subscription of a socket. -/
  queue : ι → List String
  frames : ι → List Frame
  /-- For whom and with which payload `publish_alert` was called. -/
  published : List (UUID × String)
  /-- The user of a socket, and the number of publications before its subscription. -/
  joined : ι → Option (UUID × ℕ)
  /-- When it subscribed. -/
  started : ι → ℤ
  lossy : ι → Bool

inductive AlertLabel (ι Event : Type)
  /-- A step of the tickets. -/
  | ticket (l : TicketLabel ι)
  | publish (userId : UUID) (event : Event)
  | subscribe (i : ι)
  | poll (i : ι) (arrived : Bool)
  /-- `send_text` raises when the client is gone. -/
  | send (i : ι) (connected : Bool)
  | checkPing (i : ι) (connected : Bool)
  /-- `get_message` raises. -/
  | fail (i : ι)
  /-- The connection to Redis breaks. -/
  | disconnect (i : ι)
  | reconnect (i : ι)

variable {ι Event : Type}

namespace AlertState

/-- The state with the tickets moved on. -/
def withTickets (s : AlertState ι) (l : TicketLabel ι) (tickets : TicketState ι) : AlertState ι :=
  { s with
    tickets := tickets
    minted :=
      match l with
      | .createTicket ticket userId => (ticket, userId) :: s.minted
      | _ => s.minted }

section

variable [DecidableEq ι]

def goto (s : AlertState ι) (i : ι) (p : Stream) : AlertState ι :=
  { s with stream := Function.update s.stream i p }

/-- `websocket.send_text`. -/
def sendText (s : AlertState ι) (i : ι) (frame : Frame) : AlertState ι :=
  { s with frames := Function.update s.frames i (s.frames i ++ [frame]) }

/-- The `finally` of the loop. -/
def finish (s : AlertState ι) (i : ι) (userId : UUID) : AlertState ι :=
  { s with
    subscribers := s.subscribers.remove (channelFor userId) i
    queue := Function.update s.queue i []
    stream := Function.update s.stream i .ended }

/-- `publish_alert`: the number of subscribers, and the state. -/
def publishAlert (s : AlertState ι) (userId : UUID) (payload : String) : ℕ × AlertState ι :=
  ((s.subscribers (channelFor userId)).length,
    { s with
      queue := fun i => if i ∈ s.subscribers (channelFor userId) then s.queue i ++ [payload] else s.queue i
      published := s.published ++ [(userId, payload)] })

/-- `pubsub.subscribe(channel)`, and the start of the loop. -/
def subscribe (s : AlertState ι) (i : ι) (userId : UUID) : AlertState ι :=
  { s with
    subscribers := s.subscribers.add (channelFor userId) i
    stream := Function.update s.stream i (.poll userId s.tickets.clock)
    joined := Function.update s.joined i (some (userId, s.published.length))
    started := Function.update s.started i s.tickets.clock }

/-- A subscription loses its connection to Redis. -/
def disconnect (s : AlertState ι) (i : ι) (userId : UUID) : AlertState ι :=
  { s with
    subscribers := s.subscribers.remove (channelFor userId) i
    queue := Function.update s.queue i []
    lossy := Function.update s.lossy i true }

/-- And subscribes again. -/
def reconnect (s : AlertState ι) (i : ι) (userId : UUID) : AlertState ι :=
  { s with subscribers := s.subscribers.add (channelFor userId) i }

variable (parseUuid : String → Option UUID) (dumps : Event → Option String)

/-- One step of the system. -/
def step (s : AlertState ι) : AlertLabel ι Event → Option (AlertState ι)
  | .ticket l => (s.tickets.step parseUuid l).map (s.withTickets l)
  | .publish userId event =>
    match dumps event with
    | none => some s
    | some payload => some (s.publishAlert userId payload).2
  | .subscribe i =>
    match s.tickets.connections i, s.stream i with
    | .subscribed _ userId, .subscribe => some (s.subscribe i userId)
    | _, _ => none
  | .poll i arrived =>
    match s.stream i with
    | .poll userId lastPing =>
      if arrived then
        match s.queue i with
        | [] => none
        | data :: rest =>
          some ({ s with queue := Function.update s.queue i rest }.goto i (.send userId lastPing data))
      else some (s.goto i (.checkPing userId lastPing))
    | _ => none
  | .send i connected =>
    match s.stream i with
    | .send userId lastPing data =>
      some (if connected then (s.sendText i (.alert data)).goto i (.checkPing userId lastPing)
        else s.finish i userId)
    | _ => none
  | .checkPing i connected =>
    match s.stream i with
    | .checkPing userId lastPing =>
      some (if pingInterval ≤ s.tickets.clock - lastPing then
          if connected then (s.sendText i .ping).goto i (.poll userId s.tickets.clock) else s.finish i
            userId
        else s.goto i (.poll userId lastPing))
    | _ => none
  | .fail i =>
    match s.stream i with
    | .poll userId _ => some (s.finish i userId)
    | _ => none
  | .disconnect i =>
    match (s.stream i).running with
    | some (userId, _) =>
      if i ∈ s.subscribers (channelFor userId) then some (s.disconnect i userId) else none
    | none => none
  | .reconnect i =>
    match (s.stream i).running with
    | some (userId, _) =>
      if i ∈ s.subscribers (channelFor userId) then none else some (s.reconnect i userId)
    | none => none

end

/-- The condition on a step: a ticket that is generated is a new one. -/
def FreshTickets (s : AlertState ι) : AlertLabel ι Event → Prop
  | .ticket l => s.tickets.FreshTickets l
  | _ => True

/-- Before any ticket. -/
def initial (clock : ℤ) : AlertState ι where
  tickets := TicketState.initial clock
  minted := []
  subscribers := fun _ => []
  stream := fun _ => .subscribe
  queue := fun _ => []
  frames := fun _ => []
  published := []
  joined := fun _ => none
  started := fun _ => clock
  lossy := fun _ => false

/-- The alerts that a socket was sent. -/
def alerts (s : AlertState ι) (i : ι) : List String := (s.frames i).filterMap Frame.alert?

/-- What is on the way to it. -/
def underway (s : AlertState ι) (i : ι) : List String := (s.stream i).taken ++ s.queue i

/-- The sockets as subscribers, each on its user. -/
def feed (s : AlertState ι) : Feed UUID ι String where
  published := s.published
  joined := s.joined
  live i := (s.stream i).running.isSome
  lossy := s.lossy
  received := s.alerts
  backlog := s.underway

/-! ## Redis and the loops -/

/-- Redis and the loops agree on who is subscribed, and a socket that is not yet has nothing. -/
structure Wired (s : AlertState ι) : Prop where
  running_of_mem : ∀ channel i, i ∈ s.subscribers channel →
    ∃ userId lastPing, (s.stream i).running = some (userId, lastPing) ∧ channel = channelFor userId
  nodup : ∀ channel, (s.subscribers channel).Nodup
  mem_of_running : ∀ i userId lastPing, (s.stream i).running = some (userId, lastPing) →
    s.lossy i = false → i ∈ s.subscribers (channelFor userId)
  joined : ∀ i userId lastPing, (s.stream i).running = some (userId, lastPing) →
    ∃ n, s.joined i = some (userId, n)
  fresh : ∀ i, s.stream i = .subscribe →
    s.joined i = none ∧ s.queue i = [] ∧ s.frames i = [] ∧ s.lossy i = false
  unjoined : ∀ i, s.joined i = none → s.stream i = .subscribe

theorem channelFor_injective : Function.Injective channelFor :=
  fun _ _ h => UUID.str_injective ((String.append_right_inj _).mp h)

variable {s t : AlertState ι}

@[simp] theorem goto_stream_self [DecidableEq ι] (i : ι) (p : Stream) : (s.goto i p).stream i = p :=
  Function.update_self ..

theorem Wired.joined_ne_none (hw : s.Wired) {i : ι} (hlive : s.feed.live i = true) :
    s.feed.joined i ≠ none := by
  obtain ⟨⟨userId, lastPing⟩, hrun⟩ := Option.isSome_iff_exists.mp hlive
  obtain ⟨n, hn⟩ := hw.joined i userId lastPing hrun
  exact Option.ne_none_iff_exists'.mpr ⟨_, hn⟩

/-- A step that leaves the other sockets alone. -/
theorem feed_step_at (hw : s.Wired) (i : ι) (hpub : t.published = s.published)
    (hother : ∀ j, j ≠ i → t.stream j = s.stream j ∧ t.queue j = s.queue j ∧ t.frames j = s.frames j ∧
      t.joined j = s.joined j ∧ t.lossy j = s.lossy j)
    (hi : Feed.Move s.feed t.feed [] i) : s.feed.Step t.feed [] := by
  refine ⟨by simp [feed, hpub], fun j => ?_⟩
  by_cases hji : j = i
  · rw [hji]
    exact hi
  · obtain ⟨hstream, hqueue, hframes, hjoined, hlossy⟩ := hother j hji
    refine .keep hw.joined_ne_none hjoined ?_ hlossy ?_
    · simp [feed, hstream]
    · simp [feed, Feed.account, alerts, underway, hstream, hqueue, hframes]

variable {i : ι} {userId : UUID} {lastPing : ℤ}

/-- A step that moves a running loop on and loses nothing. -/
theorem running_step (hw : s.Wired) (hrun : (s.stream i).running = some (userId, lastPing))
    {lastPing' : ℤ} (hrun' : (t.stream i).running = some (userId, lastPing'))
    (hsub : t.subscribers = s.subscribers) (hjoined : t.joined = s.joined) (hlossy : t.lossy = s.lossy)
    (hpub : t.published = s.published)
    (hother : ∀ j, j ≠ i → t.stream j = s.stream j ∧ t.queue j = s.queue j ∧ t.frames j = s.frames j)
    (ha : t.feed.account i = s.feed.account i) : t.Wired ∧ s.feed.Step t.feed [] := by
  have hrunning : ∀ j, (t.stream j).running.map Prod.fst = (s.stream j).running.map Prod.fst := fun j => by
    by_cases hji : j = i
    · rw [hji, hrun, hrun']
      rfl
    · rw [(hother j hji).1]
  have hsome : ∀ j u p, (t.stream j).running = some (u, p) → ∃ q, (s.stream j).running = some (u, q) := by
    intro j u p hp
    have hmap : (s.stream j).running.map Prod.fst = some u := by rw [← hrunning j, hp]; rfl
    obtain ⟨⟨u', q⟩, hq, rfl⟩ := Option.map_eq_some_iff.mp hmap
    exact ⟨q, hq⟩
  refine ⟨⟨fun channel j hj => ?_, ?_, fun j u p hp hl => ?_, fun j u p hp => ?_, fun j hj => ?_,
    fun j hj => ?_⟩, ?_⟩
  · obtain ⟨u, p, hp, rfl⟩ := hw.running_of_mem channel j (hsub ▸ hj)
    have hmap : (t.stream j).running.map Prod.fst = some u := by rw [hrunning j, hp]; rfl
    obtain ⟨⟨u', q⟩, hq, rfl⟩ := Option.map_eq_some_iff.mp hmap
    exact ⟨u', q, hq, rfl⟩
  · rw [hsub]
    exact hw.nodup
  · obtain ⟨q, hq⟩ := hsome j u p hp
    rw [hsub]
    exact hw.mem_of_running j u q hq (hlossy ▸ hl)
  · obtain ⟨q, hq⟩ := hsome j u p hp
    rw [hjoined]
    exact hw.joined j u q hq
  · by_cases hji : j = i
    · rw [hji] at hj
      rw [hj] at hrun'
      cases hrun'
    · obtain ⟨hs, hq, hf⟩ := hother j hji
      rw [hjoined, hlossy, hq, hf]
      exact hw.fresh j (hs ▸ hj)
  · have hstream := hw.unjoined j (hjoined ▸ hj)
    have hji : j ≠ i := by
      rintro rfl
      rw [hstream] at hrun
      cases hrun
    rw [(hother j hji).1, hstream]
  · refine feed_step_at hw i hpub (fun j hj => ?_) ?_
    · obtain ⟨hs, hq, hf⟩ := hother j hj
      exact ⟨hs, hq, hf, congrFun hjoined j, congrFun hlossy j⟩
    · obtain ⟨n, hn⟩ := hw.joined i userId lastPing hrun
      refine .stay userId n hn ((congrFun hjoined i).trans hn) ?_ (congrFun hlossy i) ?_
      · simp [feed, hrun]
      · rw [ha, onTopic_nil, List.append_nil]

variable [DecidableEq ι]

theorem finish_step (hw : s.Wired) (hrun : (s.stream i).running = some (userId, lastPing)) :
    (s.finish i userId).Wired ∧ s.feed.Step (s.finish i userId).feed [] := by
  have hsub : ∀ channel j, j ∈ (s.finish i userId).subscribers channel ↔
      j ∈ s.subscribers channel ∧ ¬ (j = i ∧ channel = channelFor userId) :=
    fun _ _ => Subscribers.mem_remove hw.nodup
  have hstream : ∀ j, j ≠ i → (s.finish i userId).stream j = s.stream j :=
    fun j hj => Function.update_of_ne hj ..
  have hended : (s.finish i userId).stream i = .ended := Function.update_self ..
  have hrunning : ∀ j u p, ((s.finish i userId).stream j).running = some (u, p) →
      j ≠ i ∧ (s.stream j).running = some (u, p) := by
    intro j u p hp
    by_cases hji : j = i
    · rw [hji, hended] at hp
      cases hp
    · exact ⟨hji, hstream j hji ▸ hp⟩
  refine ⟨⟨fun channel j hj => ?_, Subscribers.nodup_remove hw.nodup, fun j u p hp hl => ?_,
    fun j u p hp => ?_, fun j hj => ?_, fun j hj => ?_⟩, ?_⟩
  · obtain ⟨hj, hnot⟩ := (hsub channel j).mp hj
    obtain ⟨u, p, hp, rfl⟩ := hw.running_of_mem channel j hj
    have hji : j ≠ i := by
      rintro rfl
      obtain ⟨rfl, rfl⟩ : userId = u ∧ lastPing = p := by simpa [hrun] using hp
      exact hnot ⟨rfl, rfl⟩
    exact ⟨u, p, hstream j hji ▸ hp, rfl⟩
  · obtain ⟨hji, hp⟩ := hrunning j u p hp
    exact (hsub _ j).mpr ⟨hw.mem_of_running j u p hp hl, fun h => hji h.1⟩
  · exact hw.joined j u p (hrunning j u p hp).2
  · by_cases hji : j = i
    · rw [hji, hended] at hj
      cases hj
    · obtain ⟨hnone, hqueue, hframes, hlossy⟩ := hw.fresh j (hstream j hji ▸ hj)
      exact ⟨hnone, (Function.update_of_ne hji ..).trans hqueue, hframes, hlossy⟩
  · have hsubscribe := hw.unjoined j hj
    have hji : j ≠ i := by
      rintro rfl
      rw [hsubscribe] at hrun
      cases hrun
    rw [hstream j hji, hsubscribe]
  · refine feed_step_at hw i rfl (fun j hj => ⟨hstream j hj, Function.update_of_ne hj .., rfl, rfl, rfl⟩) ?_
    refine .off rfl ?_ rfl ?_
    · simp [feed, hended, Stream.running]
    · simp [feed, Feed.account, underway, alerts, finish, Stream.taken]

/-- A loop that starts. -/
theorem subscribe_step (hw : s.Wired) (hstart : s.stream i = .subscribe) (userId : UUID) :
    (s.subscribe i userId).Wired ∧ s.feed.Step (s.subscribe i userId).feed [] := by
  obtain ⟨-, hqueue, hframes, hlossy⟩ := hw.fresh i hstart
  have hrunning : ∀ channel j u p, j ∈ s.subscribers channel → (s.stream j).running = some (u, p) →
    j ≠ i := by
    rintro channel j u p - hp rfl
    rw [hstart] at hp
    cases hp
  have hstream : ∀ j, j ≠ i → (s.subscribe i userId).stream j = s.stream j :=
    fun j hj => Function.update_of_ne hj ..
  have hjoined : ∀ j, j ≠ i → (s.subscribe i userId).joined j = s.joined j :=
    fun j hj => Function.update_of_ne hj ..
  have hpoll : (s.subscribe i userId).stream i = .poll userId s.tickets.clock := Function.update_self ..
  have hsub : ∀ channel j, j ∈ (s.subscribe i userId).subscribers channel ↔
      (j = i ∧ channel = channelFor userId) ∨ j ∈ s.subscribers channel := fun _ _ => Subscribers.mem_add
  refine ⟨⟨fun channel j hj => ?_, Subscribers.nodup_add hw.nodup fun hmem => ?_, fun j u p hp hl => ?_,
    fun j u p hp => ?_, fun j hj => ?_, fun j hj => ?_⟩, ?_⟩
  · rcases (hsub channel j).mp hj with ⟨rfl, rfl⟩ | hj
    · exact ⟨userId, s.tickets.clock, by rw [hpoll]; rfl, rfl⟩
    · obtain ⟨u, p, hp, rfl⟩ := hw.running_of_mem channel j hj
      exact ⟨u, p, hstream j (hrunning _ j u p hj hp) ▸ hp, rfl⟩
  · obtain ⟨u, p, hp, -⟩ := hw.running_of_mem _ i hmem
    exact hrunning _ i u p hmem hp rfl
  · by_cases hji : j = i
    · subst hji
      rw [hpoll] at hp
      cases hp
      exact (hsub _ j).mpr (.inl ⟨rfl, rfl⟩)
    · exact (hsub _ j).mpr (.inr (hw.mem_of_running j u p (hstream j hji ▸ hp) hl))
  · by_cases hji : j = i
    · subst hji
      rw [hpoll] at hp
      cases hp
      exact ⟨_, Function.update_self ..⟩
    · rw [hjoined j hji]
      exact hw.joined j u p (hstream j hji ▸ hp)
  · by_cases hji : j = i
    · rw [hji, hpoll] at hj
      cases hj
    · rw [hjoined j hji]
      exact hw.fresh j (hstream j hji ▸ hj)
  · by_cases hji : j = i
    · subst hji
      exact absurd ((Function.update_self ..).symm.trans hj) (Option.some_ne_none _)
    · rw [hstream j hji]
      exact hw.unjoined j (hjoined j hji ▸ hj)
  · refine feed_step_at hw i rfl (fun j hj => ⟨hstream j hj, rfl, rfl, hjoined j hj, rfl⟩) ?_
    refine .join userId (Function.update_self ..) ?_
    simp only [feed, Feed.account, underway, alerts, hpoll]
    simp [subscribe, hqueue, hframes, Stream.taken]

theorem disconnect_step (hw : s.Wired) (hrun : (s.stream i).running = some (userId, lastPing)) :
    (s.disconnect i userId).Wired ∧ s.feed.Step (s.disconnect i userId).feed [] := by
  have hsub : ∀ channel j, j ∈ (s.disconnect i userId).subscribers channel ↔
      j ∈ s.subscribers channel ∧ ¬ (j = i ∧ channel = channelFor userId) :=
    fun _ _ => Subscribers.mem_remove hw.nodup
  have hlossy : (s.disconnect i userId).lossy i = true := Function.update_self ..
  have hkept : ∀ j, j ≠ i → (s.disconnect i userId).lossy j = s.lossy j :=
    fun j hj => Function.update_of_ne hj ..
  refine ⟨⟨fun channel j hj => hw.running_of_mem channel j ((hsub channel j).mp hj).1,
    Subscribers.nodup_remove hw.nodup, fun j u p hp hl => ?_, hw.joined, fun j hj => ?_, hw.unjoined⟩, ?_⟩
  · have hji : j ≠ i := by
      rintro rfl
      rw [hlossy] at hl
      cases hl
    exact (hsub _ j).mpr ⟨hw.mem_of_running j u p hp (hkept j hji ▸ hl), fun h => hji h.1⟩
  · have hji : j ≠ i := by
      rintro rfl
      have hstream : s.stream j = .subscribe := hj
      rw [hstream] at hrun
      cases hrun
    obtain ⟨hnone, hqueue, hframes, hl⟩ := hw.fresh j hj
    exact ⟨hnone, (Function.update_of_ne hji ..).trans hqueue, hframes, (hkept j hji).trans hl⟩
  · obtain ⟨n, hn⟩ := hw.joined i userId lastPing hrun
    refine feed_step_at hw i rfl
      (fun j hj => ⟨rfl, Function.update_of_ne hj .., rfl, rfl, hkept j hj⟩) ?_
    refine .lose userId n hn hn hlossy ?_
    simp [feed, Feed.account, underway, alerts, disconnect]

omit [DecidableEq ι] in
theorem reconnect_step (hw : s.Wired) (hrun : (s.stream i).running = some (userId, lastPing))
    (hout : i ∉ s.subscribers (channelFor userId)) :
    (s.reconnect i userId).Wired ∧ s.feed.Step (s.reconnect i userId).feed [] := by
  have hsub : ∀ channel j, j ∈ (s.reconnect i userId).subscribers channel ↔
      (j = i ∧ channel = channelFor userId) ∨ j ∈ s.subscribers channel := fun _ _ => Subscribers.mem_add
  refine ⟨⟨fun channel j hj => ?_, Subscribers.nodup_add hw.nodup hout, fun j u p hp hl => ?_, hw.joined,
    hw.fresh, hw.unjoined⟩, ?_⟩
  · rcases (hsub channel j).mp hj with ⟨rfl, rfl⟩ | hj
    · exact ⟨userId, lastPing, hrun, rfl⟩
    · exact hw.running_of_mem channel j hj
  · exact (hsub _ j).mpr (.inr (hw.mem_of_running j u p hp hl))
  · exact feed_step_at hw i rfl (fun j _ => ⟨rfl, rfl, rfl, rfl, rfl⟩)
      (.keep hw.joined_ne_none rfl rfl rfl rfl)

theorem publish_step (hw : s.Wired) (userId : UUID) (payload : String) :
    (s.publishAlert userId payload).2.Wired ∧
      s.feed.Step (s.publishAlert userId payload).2.feed [(userId, payload)] := by
  have hin : ∀ j, j ∈ s.subscribers (channelFor userId) →
      (s.publishAlert userId payload).2.queue j = s.queue j ++ [payload] := fun j hj => if_pos hj
  have hout : ∀ j, j ∉ s.subscribers (channelFor userId) →
      (s.publishAlert userId payload).2.queue j = s.queue j := fun j hj => if_neg hj
  refine ⟨⟨hw.running_of_mem, hw.nodup, hw.mem_of_running, hw.joined, fun j hj => ?_, hw.unjoined⟩, rfl,
    fun j => ?_⟩
  · obtain ⟨hnone, hqueue, hframes, hlossy⟩ := hw.fresh j hj
    refine ⟨hnone, (hout j fun hmem => ?_).trans hqueue, hframes, hlossy⟩
    obtain ⟨u, p, hp, -⟩ := hw.running_of_mem _ j hmem
    have hsub : s.stream j = .subscribe := hj
    rw [hsub] at hp
    cases hp
  · rcases hrun : (s.stream j).running with _ | ⟨u, p⟩
    · refine .off rfl (by simp [feed, publishAlert, hrun]) rfl ?_
      have hnot : j ∉ s.subscribers (channelFor userId) := fun hmem => by
        obtain ⟨u, p, hp, -⟩ := hw.running_of_mem _ j hmem
        rw [hrun] at hp
        cases hp
      simp only [feed, Feed.account, underway, alerts, hout j hnot]
      exact List.prefix_refl _
    · obtain ⟨n, hn⟩ := hw.joined j u p hrun
      have hlive : s.feed.live j = true := by simp [feed, hrun]
      by_cases hmem : j ∈ s.subscribers (channelFor userId)
      · obtain ⟨u', p', hp', hchannel⟩ := hw.running_of_mem _ j hmem
        obtain ⟨rfl, rfl⟩ : u = u' ∧ p = p' := by simpa [hrun] using hp'
        obtain rfl := channelFor_injective hchannel
        refine .stay userId n hn hn hlive rfl ?_
        rw [onTopic_singleton_self]
        simp only [feed, Feed.account, underway, alerts, hin j hmem]
        simp [publishAlert]
      · have hsame : (s.publishAlert userId payload).2.feed.account j = s.feed.account j := by
          simp only [feed, Feed.account, underway, alerts, hout j hmem]
          simp [publishAlert]
        cases hlossy : s.lossy j with
        | true =>
          refine .lose u n hn hn hlossy ?_
          rw [hsame]
          exact List.sublist_append_left ..
        | false =>
          have hne : userId ≠ u := fun heq => hmem (heq ▸ hw.mem_of_running j u p hrun hlossy)
          refine .stay u n hn hn hlive rfl ?_
          rw [hsame, onTopic_singleton_of_ne hne, List.append_nil]

/-! ## Steps -/

section

variable (parseUuid : String → Option UUID)

/-- What one step can do. -/
inductive Effect (s : AlertState ι) : AlertLabel ι Event → AlertState ι → Prop
  | ticket {l : TicketLabel ι} {tickets : TicketState ι} (h : s.tickets.step parseUuid l = some tickets) :
      Effect s (.ticket l) (s.withTickets l tickets)
  /-- The event cannot be encoded. -/
  | unpublished (userId : UUID) (event : Event) : Effect s (.publish userId event) s
  | publish (userId : UUID) (event : Event) (payload : String) :
      Effect s (.publish userId event) (s.publishAlert userId payload).2
  | subscribe {i : ι} {ticket : String} {userId : UUID}
    (h : s.tickets.connections i = .subscribed ticket userId)
      (hs : s.stream i = .subscribe) : Effect s (.subscribe i) (s.subscribe i userId)
  | take {i : ι} {userId : UUID} {lastPing : ℤ} {data : String} {rest : List String}
      (hs : s.stream i = .poll userId lastPing) (hq : s.queue i = data :: rest) :
      Effect s (.poll i true)
        ({ s with queue := Function.update s.queue i rest }.goto i (.send userId lastPing data))
  | idle {i : ι} {userId : UUID} {lastPing : ℤ} (hs : s.stream i = .poll userId lastPing) :
      Effect s (.poll i false) (s.goto i (.checkPing userId lastPing))
  | sent {i : ι} {userId : UUID} {lastPing : ℤ} {data : String}
    (hs : s.stream i = .send userId lastPing data) :
      Effect s (.send i true) ((s.sendText i (.alert data)).goto i (.checkPing userId lastPing))
  | pinged {i : ι} {userId : UUID} {lastPing : ℤ} (hs : s.stream i = .checkPing userId lastPing)
      (h : pingInterval ≤ s.tickets.clock - lastPing) :
      Effect s (.checkPing i true) ((s.sendText i .ping).goto i (.poll userId s.tickets.clock))
  | again {i : ι} {userId : UUID} {lastPing : ℤ} (connected : Bool)
      (hs : s.stream i = .checkPing userId lastPing) :
      Effect s (.checkPing i connected) (s.goto i (.poll userId lastPing))
  | finish {l : AlertLabel ι Event} {i : ι} {userId : UUID} {lastPing : ℤ}
      (h : (s.stream i).running = some (userId, lastPing)) : Effect s l (s.finish i userId)
  | disconnect {i : ι} {userId : UUID} {lastPing : ℤ} (h : (s.stream i).running = some (userId, lastPing)) :
      Effect s (.disconnect i) (s.disconnect i userId)
  | reconnect {i : ι} {userId : UUID} {lastPing : ℤ} (h : (s.stream i).running = some (userId, lastPing))
      (hout : i ∉ s.subscribers (channelFor userId)) : Effect s (.reconnect i) (s.reconnect i userId)

end

variable {parseUuid : String → Option UUID} {dumps : Event → Option String} {l : AlertLabel ι Event}

theorem effect_of_step (h : s.step parseUuid dumps l = some t) : s.Effect parseUuid l t := by
  cases l with
  | ticket l =>
    obtain ⟨tickets, htickets, rfl⟩ := Option.map_eq_some_iff.mp h
    exact .ticket htickets
  | publish userId event =>
    simp only [step] at h
    split at h
    · cases h
      exact .unpublished userId event
    · cases h
      exact .publish userId event _
  | subscribe i =>
    simp only [step] at h
    split at h
    · rename_i hconnection hstream
      cases h
      exact .subscribe hconnection hstream
    · cases h
  | poll i arrived =>
    simp only [step] at h
    split at h
    · rename_i userId lastPing hstream
      cases arrived with
      | true =>
        rw [if_pos rfl] at h
        split at h
        · cases h
        · rename_i data rest hqueue
          cases h
          exact .take hstream hqueue
      | false =>
        cases h
        exact .idle hstream
    · cases h
  | send i connected =>
    simp only [step] at h
    split at h
    · rename_i userId lastPing data hstream
      cases connected with
      | true =>
        cases h
        exact .sent hstream
      | false =>
        cases h
        have hrun : (s.stream i).running = some (userId, lastPing) := by rw [hstream]; rfl
        exact .finish hrun
    · cases h
  | checkPing i connected =>
    simp only [step] at h
    split at h
    · rename_i userId lastPing hstream
      split at h
      · rename_i hdue
        cases connected with
        | true =>
          cases h
          exact .pinged hstream hdue
        | false =>
          cases h
          have hrun : (s.stream i).running = some (userId, lastPing) := by rw [hstream]; rfl
          exact .finish hrun
      · cases h
        exact .again connected hstream
    · cases h
  | fail i =>
    simp only [step] at h
    split at h
    · rename_i userId lastPing hstream
      cases h
      have hrun : (s.stream i).running = some (userId, lastPing) := by rw [hstream]; rfl
      exact .finish hrun
    · cases h
  | disconnect i =>
    simp only [step] at h
    split at h
    · rename_i userId lastPing hrun
      split at h
      · cases h
        exact .disconnect hrun
      · cases h
    · cases h
  | reconnect i =>
    simp only [step] at h
    split at h
    · rename_i userId lastPing hrun
      split at h
      · cases h
      · rename_i hout
        cases h
        exact .reconnect hrun hout
    · cases h

/-- Each step is one of the feed. -/
theorem feed_step (hw : s.Wired) (h : s.Effect parseUuid l t) :
    t.Wired ∧ ∃ new, s.feed.Step t.feed new := by
  cases h with
  | ticket _ =>
    exact ⟨⟨hw.running_of_mem, hw.nodup, hw.mem_of_running, hw.joined, hw.fresh, hw.unjoined⟩, [],
      by simp [feed, withTickets], fun i => .keep hw.joined_ne_none rfl rfl rfl rfl⟩
  | unpublished userId event => exact ⟨hw, [], by simp, fun i => .keep hw.joined_ne_none rfl rfl rfl rfl⟩
  | publish userId event payload =>
    obtain ⟨hwired, hstep⟩ := publish_step hw userId payload
    exact ⟨hwired, _, hstep⟩
  | subscribe _ hs =>
    obtain ⟨hwired, hstep⟩ := subscribe_step hw hs _
    exact ⟨hwired, _, hstep⟩
  | @take i userId lastPing data rest hs hq =>
    have hrun : (s.stream i).running = some (userId, lastPing) := by rw [hs]; rfl
    obtain ⟨hwired, hstep⟩ := running_step (t := { s with queue := Function.update s.queue i rest }.goto i
      (.send userId lastPing data)) hw hrun (by rw [goto_stream_self]; rfl) rfl rfl rfl rfl
      (fun j hj => ⟨Function.update_of_ne hj .., Function.update_of_ne hj .., rfl⟩)
      (by simp [feed, Feed.account, alerts, underway, goto, hs, hq, Stream.taken])
    exact ⟨hwired, _, hstep⟩
  | @idle i userId lastPing hs =>
    have hrun : (s.stream i).running = some (userId, lastPing) := by rw [hs]; rfl
    obtain ⟨hwired, hstep⟩ := running_step (t := s.goto i (.checkPing userId lastPing)) hw hrun
      (by rw [goto_stream_self]; rfl) rfl rfl rfl rfl
      (fun j hj => ⟨Function.update_of_ne hj .., rfl, rfl⟩)
      (by simp [feed, Feed.account, alerts, underway, goto, hs, Stream.taken])
    exact ⟨hwired, _, hstep⟩
  | @sent i userId lastPing data hs =>
    have hrun : (s.stream i).running = some (userId, lastPing) := by rw [hs]; rfl
    obtain ⟨hwired, hstep⟩ :=
      running_step (t := (s.sendText i (.alert data)).goto i (.checkPing userId lastPing))
      hw hrun (by rw [goto_stream_self]; rfl) rfl rfl rfl rfl
      (fun j hj => ⟨Function.update_of_ne hj .., rfl, Function.update_of_ne hj ..⟩)
      (by simp [feed, Feed.account, alerts, underway, goto, sendText, hs, Stream.taken, Frame.alert?])
    exact ⟨hwired, _, hstep⟩
  | @pinged i userId lastPing hs _ =>
    have hrun : (s.stream i).running = some (userId, lastPing) := by rw [hs]; rfl
    obtain ⟨hwired, hstep⟩ :=
      running_step (t := (s.sendText i .ping).goto i (.poll userId s.tickets.clock)) hw hrun
      (by rw [goto_stream_self]; rfl) rfl rfl rfl rfl
      (fun j hj => ⟨Function.update_of_ne hj .., rfl, Function.update_of_ne hj ..⟩)
      (by simp [feed, Feed.account, alerts, underway, goto, sendText, hs, Stream.taken, Frame.alert?])
    exact ⟨hwired, _, hstep⟩
  | @again i userId lastPing _ hs =>
    have hrun : (s.stream i).running = some (userId, lastPing) := by rw [hs]; rfl
    obtain ⟨hwired, hstep⟩ := running_step (t := s.goto i (.poll userId lastPing)) hw hrun
      (by rw [goto_stream_self]; rfl) rfl rfl rfl rfl
      (fun j hj => ⟨Function.update_of_ne hj .., rfl, rfl⟩)
      (by simp [feed, Feed.account, alerts, underway, goto, hs, Stream.taken])
    exact ⟨hwired, _, hstep⟩
  | finish hrun =>
    obtain ⟨hwired, hstep⟩ := finish_step hw hrun
    exact ⟨hwired, _, hstep⟩
  | disconnect hrun =>
    obtain ⟨hwired, hstep⟩ := disconnect_step hw hrun
    exact ⟨hwired, _, hstep⟩
  | reconnect hrun hout =>
    obtain ⟨hwired, hstep⟩ := reconnect_step hw hrun hout
    exact ⟨hwired, _, hstep⟩

/-! ## Whose tickets -/

/-- The value of a ticket is the user it was minted for, and a socket has such a user. -/
structure Traced (s : AlertState ι) : Prop where
  issued : s.tickets.issued = s.minted.map Prod.fst
  nodup : (s.minted.map Prod.fst).Nodup
  key : ∀ ticket value deadline, s.tickets.keys (ticketKey ticket) = some (value, deadline) →
    ∃ userId, value = userId.str ∧ (ticket, userId) ∈ s.minted
  consumed : ∀ i ticket userId, s.tickets.connections i = .subscribed ticket userId →
    (ticket, userId) ∈ s.minted
  joined : ∀ i userId n, s.joined i = some (userId, n) →
    ∃ ticket, s.tickets.connections i = .subscribed ticket userId

/-- A connection that is subscribed stays so. -/
theorem connections_of_step {u v : TicketState ι} {l : TicketLabel ι} (h : u.step parseUuid l = some v)
    {i : ι}
    {ticket : String} {userId : UUID} (hi : u.connections i = .subscribed ticket userId) :
    v.connections i = .subscribed ticket userId := by
  have hne : ∀ j (c : Connection), u.connections j ≠ .subscribed ticket userId →
      (u.goto j c).connections i = .subscribed ticket userId := by
    intro j c hj
    refine (Function.update_of_ne ?_ ..).trans hi
    rintro rfl
    exact hj hi
  cases l with
  | createTicket ticket userId =>
    cases h
    exact hi
  | connect j ticket =>
    simp only [TicketState.step] at h
    split at h
    · rename_i hj
      cases ticket <;> cases h <;> exact hne j _ (by simp [hj])
    · cases h
  | consume j =>
    simp only [TicketState.step] at h
    split at h
    · rename_i hj
      cases h
      exact hne j _ (by simp [hj])
    · cases h
  | wait microseconds =>
    cases h
    exact hi

/-- The tickets move on. -/
theorem Traced.withTickets (hparse : ∀ userId : UUID, parseUuid userId.str = some userId) (ht : s.Traced)
    {l : TicketLabel ι} (hfresh : s.tickets.FreshTickets l) {tickets : TicketState ι}
    (h : s.tickets.step parseUuid l = some tickets) : (s.withTickets l tickets).Traced := by
  have hjoined : ∀ i userId n, s.joined i = some (userId, n) →
      ∃ ticket, tickets.connections i = .subscribed ticket userId := fun i userId n hi => by
    obtain ⟨ticket, hticket⟩ := ht.joined i userId n hi
    exact ⟨ticket, connections_of_step h hticket⟩
  cases l with
  | createTicket ticket userId =>
    cases h
    have hnew : ticket ∉ s.minted.map Prod.fst := by
      rw [← ht.issued]
      exact hfresh
    refine ⟨by simp [AlertState.withTickets, ht.issued], ?_, fun ticket' value deadline hkey => ?_,
      fun i ticket' userId' hi => List.mem_cons_of_mem _ (ht.consumed i ticket' userId' hi), hjoined⟩
    · exact List.nodup_cons.mpr ⟨hnew, ht.nodup⟩
    · change (setNxEx s.tickets.clock (ticketKey ticket) userId.str ticketTtl s.tickets.keys).1
        (ticketKey ticket') =
        some (value, deadline) at hkey
      cases hget : getKey s.tickets.clock (ticketKey ticket) s.tickets.keys with
      | none =>
        rw [setNxEx_of_gone hget] at hkey
        by_cases heq : ticket' = ticket
        · subst heq
          simp only [Function.update_self] at hkey
          cases hkey
          exact ⟨userId, rfl, List.mem_cons_self⟩
        · simp only [Function.update_of_ne (TicketState.ticketKey_ne heq)] at hkey
          obtain ⟨u, hu, hmem⟩ := ht.key ticket' value deadline hkey
          exact ⟨u, hu, List.mem_cons_of_mem _ hmem⟩
      | some v =>
        rw [setNxEx_of_live hget] at hkey
        obtain ⟨u, hu, hmem⟩ := ht.key ticket' value deadline hkey
        exact ⟨u, hu, List.mem_cons_of_mem _ hmem⟩
  | connect i ticket =>
    simp only [TicketState.step] at h
    split at h
    · have hgoto : ∃ c, (∀ ticket userId, c ≠ .subscribed ticket userId) ∧ tickets =
        s.tickets.goto i c := by
        cases ticket with
        | none =>
          cases h
          exact ⟨_, by simp, rfl⟩
        | some ticket =>
          cases h
          refine ⟨_, fun ticket' userId => ?_, rfl⟩
          split <;> simp
      obtain ⟨c, hc, rfl⟩ := hgoto
      refine ⟨ht.issued, ht.nodup, ht.key, fun j ticket' userId hj => ?_, hjoined⟩
      by_cases hji : j = i
      · subst hji
        exact absurd ((Function.update_self ..).symm.trans hj) (hc ticket' userId)
      · exact ht.consumed j ticket' userId ((Function.update_of_ne hji ..).symm.trans hj)
    · cases h
  | consume i =>
    simp only [TicketState.step] at h
    split at h
    · rename_i ticket hi
      cases h
      refine ⟨ht.issued, ht.nodup, fun ticket' value deadline hkey => ?_, fun j ticket' userId hj => ?_,
        hjoined⟩
      · change delete (ticketKey ticket) s.tickets.keys (ticketKey ticket') = some (value, deadline) at hkey
        by_cases heq : ticket' = ticket
        · rw [heq, delete, Function.update_self] at hkey
          cases hkey
        · rw [delete, Function.update_of_ne (TicketState.ticketKey_ne heq)] at hkey
          exact ht.key ticket' value deadline hkey
      · by_cases hji : j = i
        · subst hji
          have hconnection := (Function.update_self ..).symm.trans hj
          simp only [getdel] at hconnection
          split at hconnection
          · cases hconnection
          · rename_i userId' hbind
            cases hconnection
            obtain ⟨value, hvalue, huser⟩ := Option.bind_eq_some_iff.mp hbind
            obtain ⟨deadline, hkey, -⟩ := getKey_eq_some_iff.mp hvalue
            obtain ⟨u, rfl, hmem⟩ := ht.key _ value deadline hkey
            obtain rfl := Option.some.inj ((hparse u).symm.trans huser)
            exact hmem
        · exact ht.consumed j ticket' userId ((Function.update_of_ne hji ..).symm.trans hj)
    · cases h
  | wait microseconds =>
    cases h
    exact ⟨ht.issued, ht.nodup, ht.key, ht.consumed, hjoined⟩

theorem Traced.step (hparse : ∀ userId : UUID, parseUuid userId.str = some userId) (ht : s.Traced)
    (hfresh : s.FreshTickets l) (h : s.Effect parseUuid l t) : t.Traced := by
  cases h with
  | ticket h => exact ht.withTickets hparse hfresh h
  | @subscribe i ticket userId hconnection _ =>
    refine ⟨ht.issued, ht.nodup, ht.key, ht.consumed, fun j u n hj => ?_⟩
    by_cases hji : j = i
    · subst hji
      obtain ⟨rfl, rfl⟩ : userId = u ∧ s.published.length = n := by simpa [AlertState.subscribe] using hj
      exact ⟨ticket, hconnection⟩
    · exact ht.joined j u n ((Function.update_of_ne hji ..).symm.trans hj)
  | _ => exact ⟨ht.issued, ht.nodup, ht.key, ht.consumed, ht.joined⟩

/-! ## Pings -/

/-- The pings that a socket was sent. -/
def pings (s : AlertState ι) (i : ι) : ℕ := (s.frames i).count .ping

/-- Pings are `pingInterval` apart, from the start of the loop on. -/
structure Paced (s : AlertState ι) : Prop where
  spent : ∀ i, s.started i + pingInterval * s.pings i ≤ s.tickets.clock
  last : ∀ i userId lastPing, (s.stream i).running = some (userId, lastPing) →
    lastPing ≤ s.tickets.clock ∧ s.started i + pingInterval * s.pings i ≤ lastPing

theorem clock_le_of_step {u v : TicketState ι} {l : TicketLabel ι} (h : u.step parseUuid l = some v) :
    u.clock ≤ v.clock := by
  cases l with
  | createTicket ticket userId => cases h; exact le_rfl
  | connect i ticket =>
    simp only [TicketState.step] at h
    split at h
    · cases ticket <;> cases h <;> exact le_rfl
    · cases h
  | consume i =>
    simp only [TicketState.step] at h
    split at h
    · cases h; exact le_rfl
    · cases h
  | wait microseconds =>
    cases h
    show u.clock ≤ u.clock + microseconds
    omega

omit [DecidableEq ι] in
/-- A step that sends no ping and leaves the times as they are. -/
theorem Paced.keep (hp : s.Paced) (hclock : s.tickets.clock ≤ t.tickets.clock)
    (hstarted : t.started = s.started)
    (hpings : ∀ i, t.pings i = s.pings i)
    (hrun : ∀ i userId lastPing, (t.stream i).running = some (userId, lastPing) →
      (s.stream i).running = some (userId, lastPing)) : t.Paced := by
  refine ⟨fun i => ?_, fun i userId lastPing hi => ?_⟩
  · rw [hstarted, hpings]
    exact (hp.spent i).trans hclock
  · obtain ⟨hle, hlast⟩ := hp.last i userId lastPing (hrun i userId lastPing hi)
    rw [hstarted, hpings]
    exact ⟨hle.trans hclock, hlast⟩

/-- A loop that goes on with the same last ping. -/
theorem running_of_goto {i : ι} {p : Stream} (hrun : p.running = (s.stream i).running ∨ p.running = none)
    (j : ι) (userId : UUID) (lastPing : ℤ)
    (h : (Function.update s.stream i p j).running = some (userId, lastPing)) :
    (s.stream j).running = some (userId, lastPing) := by
  by_cases hji : j = i
  · subst hji
    rw [Function.update_self] at h
    rcases hrun with hrun | hrun
    · rw [← hrun, h]
    · rw [hrun] at h
      cases h
  · rwa [Function.update_of_ne hji] at h

theorem Paced.step (hw : s.Wired) (hp : s.Paced) (h : s.Effect parseUuid l t) : t.Paced := by
  cases h with
  | ticket h => exact hp.keep (clock_le_of_step h) rfl (fun _ => rfl) fun _ _ _ hi => hi
  | unpublished => exact hp
  | publish => exact hp.keep le_rfl rfl (fun _ => rfl) fun _ _ _ hi => hi
  | @subscribe i ticket userId _ hs =>
    have hpings : s.pings i = 0 := by
      rw [pings, (hw.fresh i hs).2.2.1]
      rfl
    refine ⟨fun j => ?_, fun j u lastPing hj => ?_⟩ <;> by_cases hji : j = i
    · subst hji
      show Function.update s.started j _ j + pingInterval * s.pings j ≤ s.tickets.clock
      rw [Function.update_self, hpings]
      simp
    · show Function.update s.started i _ j + pingInterval * s.pings j ≤ s.tickets.clock
      rw [Function.update_of_ne hji]
      exact hp.spent j
    · subst hji
      change (Function.update s.stream j _ j).running = _ at hj
      rw [Function.update_self] at hj
      cases hj
      refine ⟨le_rfl, ?_⟩
      show Function.update s.started j _ j + pingInterval * s.pings j ≤ s.tickets.clock
      rw [Function.update_self, hpings]
      simp
    · change (Function.update s.stream i _ j).running = _ at hj
      rw [Function.update_of_ne hji] at hj
      show _ ∧ Function.update s.started i _ j + pingInterval * s.pings j ≤ lastPing
      rw [Function.update_of_ne hji]
      exact hp.last j u lastPing hj
  | take hs hq => exact hp.keep le_rfl rfl (fun _ => rfl) (running_of_goto (.inl (by rw [hs]; rfl)))
  | idle hs => exact hp.keep le_rfl rfl (fun _ => rfl) (running_of_goto (.inl (by rw [hs]; rfl)))
  | @sent i userId lastPing data hs =>
    have hrun : (Stream.checkPing userId lastPing).running = (s.stream i).running := by rw [hs]; rfl
    refine hp.keep le_rfl rfl (fun j => ?_) (running_of_goto (.inl hrun))
    show (Function.update s.frames i _ j).count .ping = (s.frames j).count .ping
    by_cases hji : j = i
    · subst hji
      rw [Function.update_self, List.count_append]
      simp
    · rw [Function.update_of_ne hji]
  | @pinged i userId lastPing hs hdue =>
    have hmore : ((s.sendText i .ping).goto i (.poll userId s.tickets.clock)).pings i = s.pings i + 1 := by
      show (Function.update s.frames i _ i).count .ping = (s.frames i).count .ping + 1
      rw [Function.update_self, List.count_append]
      simp
    have hsame : ∀ j, j ≠ i →
        ((s.sendText i .ping).goto i (.poll userId s.tickets.clock)).pings j = s.pings j := fun j hj => by
      show (Function.update s.frames i _ j).count .ping = (s.frames j).count .ping
      rw [Function.update_of_ne hj]
    have hlast := (hp.last i userId lastPing (by rw [hs]; rfl)).2
    have hnow : s.started i + pingInterval * (s.pings i + 1 : ℕ) ≤ s.tickets.clock := by
      push_cast
      linarith
    refine ⟨fun j => ?_, fun j u lastPing' hj => ?_⟩ <;> by_cases hji : j = i
    · subst hji
      rw [hmore]
      exact hnow
    · rw [hsame j hji]
      exact hp.spent j
    · subst hji
      rw [goto_stream_self] at hj
      cases hj
      rw [hmore]
      exact ⟨le_rfl, hnow⟩
    · rw [hsame j hji]
      change (Function.update s.stream i _ j).running = _ at hj
      rw [Function.update_of_ne hji] at hj
      exact hp.last j u lastPing' hj
  | again connected hs => exact hp.keep le_rfl rfl (fun _ => rfl) (running_of_goto (.inl (by rw [hs]; rfl)))
  | finish => exact hp.keep le_rfl rfl (fun _ => rfl) (running_of_goto (.inr rfl))
  | disconnect => exact hp.keep le_rfl rfl (fun _ => rfl) fun _ _ _ hi => hi
  | reconnect => exact hp.keep le_rfl rfl (fun _ => rfl) fun _ _ _ hi => hi

omit [DecidableEq ι] in
theorem initial_wired (clock : ℤ) : (initial clock : AlertState ι).Wired where
  running_of_mem := fun _ _ h => absurd h List.not_mem_nil
  nodup := fun _ => List.nodup_nil
  mem_of_running := by
    intro i userId lastPing h
    cases h
  joined := by
    intro i userId lastPing h
    cases h
  fresh := fun _ _ => ⟨rfl, rfl, rfl, rfl⟩
  unjoined := fun _ _ => rfl

omit [DecidableEq ι] in
theorem initial_traced (clock : ℤ) : (initial clock : AlertState ι).Traced where
  issued := rfl
  nodup := List.nodup_nil
  key := by
    intro ticket value deadline h
    cases h
  consumed := by
    intro i ticket userId h
    cases h
  joined := by
    intro i userId n h
    cases h

omit [DecidableEq ι] in
theorem initial_paced (clock : ℤ) : (initial clock : AlertState ι).Paced where
  spent := fun i => by simp [initial, pings, TicketState.initial]
  last := by
    intro i userId lastPing h
    cases h

omit [DecidableEq ι] in
theorem initial_feed (clock : ℤ) : (initial clock : AlertState ι).feed.Inv :=
  fun _ => Feed.serves_of_none rfl rfl

/-- `publish_alert` counts the sockets that its payload is on the way to. -/
theorem publishAlert_fst (hw : s.Wired) (userId : UUID) (payload : String) :
    (s.publishAlert userId payload).1 =
      Set.ncard {i | (s.publishAlert userId payload).2.underway i = s.underway i ++ [payload]} := by
  have hset : {i | (s.publishAlert userId payload).2.underway i = s.underway i ++ [payload]} =
      (s.subscribers (channelFor userId)).toFinset := by
    ext i
    by_cases hi : i ∈ s.subscribers (channelFor userId)
    · simp [underway, publishAlert, hi]
    · simp [underway, publishAlert, hi]
  rw [hset, Set.ncard_coe_finset, List.toFinset_card_of_nodup (hw.nodup _)]
  rfl

end AlertState

/-! ## Runs -/

/-- What a socket has been sent: it presented a ticket that was minted for its user, and nobody
    else presented it; its alerts are of that user, in their order, without a gap or a repetition
    from its subscription on unless its connection to Redis broke; and pings are half a minute apart. -/
structure AlertState.Served (s : AlertState ι) (i : ι) (ticket : String) (userId : UUID) (n : ℕ) :
    Prop where
  joined : s.joined i = some (userId, n)
  owner : ∀ userId', (ticket, userId') ∈ s.minted ↔ userId' = userId
  once : ∀ j, s.tickets.Authenticated ticket j ↔ j = i
  ordered : (s.alerts i).Sublist (since s.published userId n)
  initial : s.lossy i = false → s.alerts i <+: since s.published userId n
  complete : s.lossy i = false → (s.stream i).running.isSome →
    s.alerts i ++ s.underway i = since s.published userId n
  paced : s.started i + pingInterval * s.pings i ≤ s.tickets.clock

variable [DecidableEq ι]

/-- The tickets of a run. -/
theorem ticketRun_of_run (parseUuid : String → Option UUID) (dumps : Event → Option String)
    {s t : AlertState ι}
    (hrun : Run (fun s l t => AlertState.step parseUuid dumps s l = some t) AlertState.FreshTickets s t) :
    Run (fun s l t => TicketState.step parseUuid s l = some t) TicketState.FreshTickets s.tickets
      t.tickets := by
  have hsim : ∀ (s : AlertState ι) (l : AlertLabel ι Event) (t : AlertState ι), s.FreshTickets l →
      s.step parseUuid dumps l = some t →
      Run (fun s l t => TicketState.step parseUuid s l = some t) TicketState.FreshTickets s.tickets
        t.tickets := by
    intro s l t hfresh hstep
    cases AlertState.effect_of_step hstep with
    | ticket h => exact .tail _ .refl hfresh h
    | _ => exact .refl
  exact hrun.simulate hsim

instance (s : AlertState ι) : (l : AlertLabel ι Event) → Decidable (s.FreshTickets l)
  | .ticket l => inferInstanceAs (Decidable (s.tickets.FreshTickets l))
  | .publish .. | .subscribe _ | .poll .. | .send .. | .checkPing .. | .fail _ | .disconnect _ |
    .reconnect _ =>
    isTrue trivial

/-- Two users with a socket each, an alert for each of them, and one that comes too late. -/
def sampleAlerts : List (AlertLabel (Fin 2) String) :=
  [.ticket (.createTicket "abc" 1), .ticket (.connect 0 (some "abc")), .ticket (.createTicket "xyz" 2),
    .ticket (.consume 0), .publish 1 "early", .subscribe 0, .ticket (.connect 1 (some "xyz")),
      .ticket (.consume 1),
    .subscribe 1, .publish 1 "risk", .publish 2 "fill", .poll 0 true, .send 0 true,
      .ticket (.wait 30000000),
    .checkPing 0 true, .poll 1 true, .publish 1 "drift", .send 1 false, .disconnect 0, .publish 1 "lost",
      .reconnect 0]

end Nivara.Notifications
