import Neuralbase.Consensus.Rpc
import Neuralbase.Library.Machine

namespace Neuralbase.Consensus

open Neuralbase.Library

/-! The receiving side of the TCP transport (`transport.rs`).  Every connection has a task of
its own; observing an incarnation and filling the inbox are separate steps of it, so tasks of
several connections interleave between the two. -/

/-- An incarnation is a random 64-bit number that is only compared for equality. -/
structure PeerIncarnations where
  current : NodeId → Option Nat
  retired : NodeId → List Nat

inductive PeerIncarnationObservation where
  | first
  | current
  | replaced
  | retired
deriving DecidableEq

namespace PeerIncarnations

def empty : PeerIncarnations := { current := fun _ => none, retired := fun _ => [] }

def observe (registry : PeerIncarnations) (peer : NodeId) (incarnation : Nat) :
    PeerIncarnations × PeerIncarnationObservation :=
  match registry.current peer with
  | none => ({ registry with current := Function.update registry.current peer (some incarnation) }, .first)
  | some current =>
    if current = incarnation then (registry, .current)
    else if incarnation ∈ registry.retired peer then (registry, .retired)
    else
      ({ retired := Function.update registry.retired peer (current :: registry.retired peer)
         current := Function.update registry.current peer (some incarnation) }, .replaced)

theorem observe_other (registry : PeerIncarnations) {peer other : NodeId} (incarnation : Nat)
    (different : other ≠ peer) :
    (registry.observe peer incarnation).1.current other = registry.current other ∧
      (registry.observe peer incarnation).1.retired other = registry.retired other := by
  unfold observe
  cases registry.current peer with
  | none => simp [different]
  | some current =>
    by_cases same : current = incarnation
    · simp [same]
    · by_cases retired : incarnation ∈ registry.retired peer <;> simp [same, retired, different]

/-- Whatever is not refused is the current incarnation from then on. -/
theorem observe_current {registry : PeerIncarnations} {peer : NodeId} {incarnation : Nat}
    (accepted : (registry.observe peer incarnation).2 ≠ .retired) :
    (registry.observe peer incarnation).1.current peer = some incarnation := by
  unfold observe at accepted ⊢
  cases found : registry.current peer with
  | none => simp
  | some current =>
    by_cases same : current = incarnation
    · simp [same, found]
    · by_cases retired : incarnation ∈ registry.retired peer
      · simp [found, same, retired] at accepted
      · simp [same, retired]

theorem observe_retired {registry : PeerIncarnations} {peer : NodeId} {incarnation : Nat}
    (refused : (registry.observe peer incarnation).2 = .retired) :
    (registry.observe peer incarnation).1 = registry ∧ incarnation ∈ registry.retired peer := by
  unfold observe at refused ⊢
  cases found : registry.current peer with
  | none => simp [found] at refused
  | some current =>
    by_cases same : current = incarnation
    · simp [found, same] at refused
    · by_cases retired : incarnation ∈ registry.retired peer
      · simp [same, retired]
      · simp [found, same, retired] at refused

end PeerIncarnations

section Connections

variable {Message : Type}

structure WireEnvelope (Message : Type) where
  sender : NodeId
  incarnation : Nat
  message : Message
deriving DecidableEq

/-- Where a task of `accept_conn` waits. -/
inductive ConnTask (Message : Type) where
  | reading
  | resetting (envelope : WireEnvelope Message)
  | sending (envelope : WireEnvelope Message)
  | closed

def ConnTask.held : ConnTask Message → Option (WireEnvelope Message)
  | .resetting envelope | .sending envelope => some envelope
  | .reading | .closed => none

/-- The inbox and the discarded frames keep the incarnation of each message, which the
receiver of the inbox does not see. -/
structure TcpTransport (Message : Type) where
  peerIncarnations : PeerIncarnations
  writers : NodeId → Bool
  tasks : List (ConnTask Message)
  inbox : List (WireEnvelope Message)
  discarded : List (WireEnvelope Message)

inductive TransportAction (Message : Type) where
  | accept
  /-- `none` is a frame that does not decode. -/
  | frame (conn : Nat) (decoded : Option (WireEnvelope Message))
  | resetWriter (conn : Nat)
  | send (conn : Nat) (receiverOpen : Bool)
  | disconnect (conn : Nat)
  | writerFor (peer : NodeId)

namespace TcpTransport

def start : TcpTransport Message :=
  { peerIncarnations := .empty, writers := fun _ => false, tasks := [], inbox := [], discarded := [] }

def observed (s : TcpTransport Message) (envelope : WireEnvelope Message) : TcpTransport Message :=
  { s with peerIncarnations := (s.peerIncarnations.observe envelope.sender envelope.incarnation).1 }

def receive (s : TcpTransport Message) (conn : Nat) (envelope : WireEnvelope Message) : TcpTransport Message :=
  let observed := s.observed envelope
  match (s.peerIncarnations.observe envelope.sender envelope.incarnation).2 with
  | .retired => { observed with discarded := s.discarded ++ [envelope] }
  | .replaced => { observed with tasks := s.tasks.set conn (.resetting envelope) }
  | .first | .current => { observed with tasks := s.tasks.set conn (.sending envelope) }

def step (s : TcpTransport Message) : TransportAction Message → Option (TcpTransport Message)
  | .accept => some { s with tasks := s.tasks ++ [.reading] }
  | .frame conn decoded =>
    match s.tasks[conn]?, decoded with
    | some .reading, some envelope => some (s.receive conn envelope)
    | some .reading, none => some s
    | _, _ => none
  | .resetWriter conn =>
    match s.tasks[conn]? with
    | some (.resetting envelope) =>
      some { s with
        writers := Function.update s.writers envelope.sender false
        tasks := s.tasks.set conn (.sending envelope) }
    | _ => none
  | .send conn receiverOpen =>
    match s.tasks[conn]? with
    | some (.sending envelope) =>
      if receiverOpen then
        some { s with inbox := s.inbox ++ [envelope], tasks := s.tasks.set conn .reading }
      else some { s with tasks := s.tasks.set conn .closed }
    | _ => none
  | .disconnect conn =>
    match s.tasks[conn]? with
    | some .reading => some { s with tasks := s.tasks.set conn .closed }
    | _ => none
  | .writerFor peer => some { s with writers := Function.update s.writers peer true }

variable {age : Nat → Nat} {peer : NodeId} {s next : TcpTransport Message}

/-- A frame of an incarnation that was not seen yet comes from a later one than the current
one, and arrives when no task still holds a message of the peer. -/
def InOrder (age : Nat → Nat) (peer : NodeId) (s : TcpTransport Message) : TransportAction Message → Prop
  | .frame _ (some envelope) =>
    envelope.sender = peer → envelope.incarnation ∉ s.peerIncarnations.retired peer →
      ∀ current ∈ s.peerIncarnations.current peer, current ≠ envelope.incarnation →
        age current < age envelope.incarnation ∧
          ∀ task ∈ s.tasks, ∀ held ∈ task.held, held.sender ≠ peer
  | _ => True

instance decidableInOrder (age : Nat → Nat) (peer : NodeId) (s : TcpTransport Message) :
    ∀ action, Decidable (InOrder age peer s action)
  | .frame _ (some _) => inferInstanceAs (Decidable (_ → _ → ∀ current ∈ _, _))
  | .frame _ none | .accept | .resetWriter _ | .send _ _ | .disconnect _ | .writerFor _ => .isTrue trivial

/-- Both incarnations are of one peer, and the second did not start before the first. -/
def NotAfter (age : Nat → Nat) (peer : NodeId) (first second : WireEnvelope Message) : Prop :=
  first.sender = peer → second.sender = peer → age first.incarnation ≤ age second.incarnation

structure Fenced (age : Nat → Nat) (peer : NodeId) (s : TcpTransport Message) : Prop where
  retired : ∀ old ∈ s.peerIncarnations.retired peer,
    ∃ current ∈ s.peerIncarnations.current peer, age old < age current
  held : ∀ task ∈ s.tasks, ∀ envelope ∈ task.held, envelope.sender = peer →
    s.peerIncarnations.current peer = some envelope.incarnation
  delivered : ∀ envelope ∈ s.inbox, envelope.sender = peer →
    ∃ current ∈ s.peerIncarnations.current peer, age envelope.incarnation ≤ age current
  ordered : s.inbox.Pairwise (NotAfter age peer)
  discarded : ∀ envelope ∈ s.discarded, envelope.sender = peer →
    ∃ current ∈ s.peerIncarnations.current peer, age envelope.incarnation < age current

theorem fenced_start : Fenced age peer (start : TcpTransport Message) := by
  constructor <;> simp [start, PeerIncarnations.empty]

/-- A task may move on with a message of the current incarnation or with none. -/
theorem Fenced.setTask (fenced : Fenced age peer s) (conn : Nat) (task : ConnTask Message)
    (known : ∀ envelope ∈ task.held, envelope.sender = peer →
      s.peerIncarnations.current peer = some envelope.incarnation) :
    Fenced age peer { s with tasks := s.tasks.set conn task } := by
  constructor
  case held =>
    intro other inside
    rcases List.mem_or_eq_of_mem_set inside with inside | rfl
    · exact fenced.held other inside
    · exact known
  all_goals first
    | exact fenced.retired | exact fenced.delivered | exact fenced.ordered | exact fenced.discarded

theorem Fenced.deliver (fenced : Fenced age peer s) {envelope : WireEnvelope Message}
    (known : envelope.sender = peer → s.peerIncarnations.current peer = some envelope.incarnation) :
    Fenced age peer { s with inbox := s.inbox ++ [envelope] } := by
  constructor
  case delivered =>
    intro other inside isPeer
    rcases List.mem_append.mp inside with inside | inside
    · exact fenced.delivered other inside isPeer
    · cases List.mem_singleton.mp inside
      exact ⟨_, known isPeer, le_rfl⟩
  case ordered =>
    refine List.pairwise_append.mpr ⟨fenced.ordered, List.pairwise_singleton _ _, ?_⟩
    intro earlier inside last isLast isPeer lastIsPeer
    cases List.mem_singleton.mp isLast
    obtain ⟨current, isCurrent, older⟩ := fenced.delivered earlier inside isPeer
    cases (known lastIsPeer).symm.trans isCurrent
    exact older
  all_goals first | exact fenced.retired | exact fenced.held | exact fenced.discarded

/-- What a registry that only moves to later incarnations keeps. -/
theorem Fenced.advance (fenced : Fenced age peer s) {registry : PeerIncarnations}
    (later : ∀ old ∈ s.peerIncarnations.current peer, ∃ current ∈ registry.current peer, age old ≤ age current)
    (retired : ∀ old ∈ registry.retired peer, ∃ current ∈ registry.current peer, age old < age current)
    (held : ∀ task ∈ s.tasks, ∀ envelope ∈ task.held, envelope.sender = peer →
      registry.current peer = some envelope.incarnation) :
    Fenced age peer { s with peerIncarnations := registry } := by
  constructor
  case retired => exact retired
  case held => exact held
  case ordered => exact fenced.ordered
  case delivered =>
    intro envelope inside isPeer
    obtain ⟨old, wasCurrent, older⟩ := fenced.delivered envelope inside isPeer
    obtain ⟨current, isCurrent, moved⟩ := later old wasCurrent
    exact ⟨current, isCurrent, older.trans moved⟩
  case discarded =>
    intro envelope inside isPeer
    obtain ⟨old, wasCurrent, older⟩ := fenced.discarded envelope inside isPeer
    obtain ⟨current, isCurrent, moved⟩ := later old wasCurrent
    exact ⟨current, isCurrent, older.trans_le moved⟩

theorem Fenced.observe (fenced : Fenced age peer s) {conn : Nat} {envelope : WireEnvelope Message}
    (inOrder : InOrder age peer s (.frame conn (some envelope))) :
    Fenced age peer (s.observed envelope) := by
  unfold observed
  by_cases isPeer : envelope.sender = peer
  · replace inOrder := inOrder isPeer
    rw [isPeer]
    unfold PeerIncarnations.observe
    cases found : s.peerIncarnations.current peer with
    | none =>
      refine fenced.advance (by simp [found]) (fun old isOld => ?_) fun task inside held isHeld ofPeer => ?_
      · obtain ⟨current, isCurrent, _⟩ := fenced.retired old isOld
        simp [found] at isCurrent
      · simpa [found] using fenced.held task inside held isHeld ofPeer
    | some current =>
      by_cases same : current = envelope.incarnation
      · simpa [same] using fenced
      by_cases retired : envelope.incarnation ∈ s.peerIncarnations.retired peer
      · simpa [same, retired] using fenced
      obtain ⟨older, idle⟩ := inOrder retired current found same
      simp only [same, retired, if_false]
      refine fenced.advance (fun old wasCurrent => ?_) (fun old isOld => ?_)
        fun task inside held isHeld ofPeer => absurd ofPeer (idle task inside held isHeld)
      · cases wasCurrent.symm.trans found
        exact ⟨envelope.incarnation, by simp, older.le⟩
      · refine ⟨envelope.incarnation, by simp, ?_⟩
        simp only [Function.update_self] at isOld
        rcases List.mem_cons.mp isOld with rfl | isOld
        · exact older
        obtain ⟨known, isKnown, before⟩ := fenced.retired old isOld
        cases isKnown.symm.trans found
        exact before.trans older
  · obtain ⟨sameCurrent, sameRetired⟩ := s.peerIncarnations.observe_other
      envelope.incarnation (Ne.symm isPeer)
    refine fenced.advance (fun old wasCurrent => ⟨old, sameCurrent.trans wasCurrent, le_rfl⟩) ?_ ?_
    · rw [sameCurrent, sameRetired]
      exact fenced.retired
    · rw [sameCurrent]
      exact fenced.held

theorem Fenced.receive (fenced : Fenced age peer s) {conn : Nat} {envelope : WireEnvelope Message}
    (inOrder : InOrder age peer s (.frame conn (some envelope))) :
    Fenced age peer (s.receive conn envelope) := by
  have observed := fenced.observe inOrder
  have known (accepted : (s.peerIncarnations.observe envelope.sender envelope.incarnation).2 ≠ .retired) :
      ∀ held ∈ some envelope, held.sender = peer →
        (s.peerIncarnations.observe envelope.sender envelope.incarnation).1.current peer = some held.incarnation := by
    rintro held ⟨⟩ isPeer
    rw [← isPeer]
    exact PeerIncarnations.observe_current accepted
  unfold TcpTransport.receive
  cases observation : (s.peerIncarnations.observe envelope.sender envelope.incarnation).2 with
  | first | current => exact observed.setTask conn (.sending envelope) (known (by simp [observation]))
  | replaced => exact observed.setTask conn (.resetting envelope) (known (by simp [observation]))
  | retired =>
    obtain ⟨unchanged, retired⟩ := PeerIncarnations.observe_retired observation
    refine { observed with discarded := fun other inside isPeer => ?_ }
    rcases List.mem_append.mp inside with inside | inside
    · exact observed.discarded other inside isPeer
    · cases List.mem_singleton.mp inside
      rw [isPeer] at retired
      simpa only [TcpTransport.observed, unchanged] using fenced.retired _ retired

theorem Fenced.step (fenced : Fenced age peer s) {action : TransportAction Message}
    (inOrder : InOrder age peer s action) (stepped : s.step action = some next) : Fenced age peer next := by
  cases action with
  | accept =>
    cases stepped
    refine { fenced with held := fun task inside => ?_ }
    rcases List.mem_append.mp inside with inside | inside
    · exact fenced.held task inside
    · cases List.mem_singleton.mp inside
      simp [ConnTask.held]
  | frame conn decoded =>
    simp only [TcpTransport.step] at stepped
    split at stepped <;> cases stepped
    · exact fenced.receive inOrder
    · exact fenced
  | resetWriter conn =>
    simp only [TcpTransport.step] at stepped
    split at stepped <;> cases stepped
    case h_1 envelope waits =>
      have known := fenced.held (.resetting envelope) (List.mem_of_getElem? waits)
      have moved := fenced.setTask conn (.sending envelope) known
      exact { moved with }
  | send conn receiverOpen =>
    simp only [TcpTransport.step] at stepped
    split at stepped
    case h_2 => cases stepped
    case h_1 envelope waits =>
      have known := fenced.held _ (List.mem_of_getElem? waits) envelope rfl
      cases receiverOpen <;> cases stepped
      · exact fenced.setTask conn .closed (by simp [ConnTask.held])
      · exact (fenced.deliver known).setTask conn .reading (by simp [ConnTask.held])
  | disconnect conn =>
    simp only [TcpTransport.step] at stepped
    split at stepped <;> cases stepped
    exact fenced.setTask conn .closed (by simp [ConnTask.held])
  | writerFor other =>
    cases stepped
    exact { fenced with }

/-- In every interleaving that is in order, the inbox never goes back to an earlier
incarnation of the peer, and whatever was discarded is of an earlier incarnation than one
that was heard of. -/
theorem incarnations_fenced (age : Nat → Nat) (peer : NodeId) (schedule : List (TransportAction Message))
    (final : TcpTransport Message) (ran : runs step start schedule = some final)
    (inOrder : Throughout step (InOrder age peer) start schedule) :
    final.inbox.Pairwise (NotAfter age peer) ∧
      ∀ envelope ∈ final.discarded, envelope.sender = peer →
        ∃ current ∈ final.peerIncarnations.current peer, age envelope.incarnation < age current := by
  have fenced := keeps (Fenced age peer) ran inOrder fenced_start
    fun s action next fenced allowed stepped => fenced.step allowed stepped
  exact ⟨fenced.ordered, fenced.discarded⟩

/-- A restart seen by two connections; the old one's late frame is discarded. -/
def restartSchedule : List (TransportAction Nat) :=
  [.accept, .accept, .frame 0 (some ⟨"n2", 7, 0⟩), .send 0 true, .frame 1 (some ⟨"n2", 3, 1⟩), .resetWriter 1,
    .frame 0 (some ⟨"n2", 7, 2⟩), .send 1 true]

theorem incarnations_fenced_restart :
    Throughout step (InOrder (fun id => if id = 7 then 1 else 2) "n2") start restartSchedule ∧
      ∃ final, runs step start restartSchedule = some final ∧ final.inbox.length = 2 ∧
        final.discarded = [⟨"n2", 7, 2⟩] ∧
        final.inbox.Pairwise (NotAfter (fun id => if id = 7 then 1 else 2) "n2") := by
  have inOrder : Throughout step (InOrder (fun id => if id = 7 then 1 else 2) "n2") start restartSchedule := by
    decide
  exact ⟨inOrder, _, rfl, rfl, rfl, (incarnations_fenced _ "n2" restartSchedule _ rfl inOrder).1⟩

/-- The first frame that arrives is of the later incarnation 3, and one of the earlier
incarnation 7 was delayed: it replaces 3, whose next frame is discarded. -/
def delayedSchedule : List (TransportAction Nat) :=
  [.accept, .accept, .frame 1 (some ⟨"n2", 3, 1⟩), .send 1 true, .frame 0 (some ⟨"n2", 7, 0⟩), .resetWriter 0,
    .send 0 true, .frame 1 (some ⟨"n2", 3, 2⟩)]

/-- The first task has observed incarnation 7 and not sent its message yet when the second
one observes and sends the next incarnation's. -/
def overtakenSchedule : List (TransportAction Nat) :=
  [.accept, .accept, .frame 0 (some ⟨"n2", 7, 0⟩), .frame 1 (some ⟨"n2", 3, 1⟩), .resetWriter 1, .send 1 true,
    .send 0 true]

theorem earlier_incarnation_delivered_later :
    ((runs step start delayedSchedule).map fun s => (s.inbox, s.discarded)) =
        some ([⟨"n2", 3, 1⟩, ⟨"n2", 7, 0⟩], [⟨"n2", 3, 2⟩]) ∧
      ((runs step start overtakenSchedule).map fun s => (s.inbox, s.discarded)) =
        some ([⟨"n2", 3, 1⟩, ⟨"n2", 7, 0⟩], []) := by
  decide

end TcpTransport

end Connections

end Neuralbase.Consensus
