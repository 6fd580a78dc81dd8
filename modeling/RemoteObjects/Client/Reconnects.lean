import RemoteObjects.Client.Devices

/-! The TCP devices of a client node: what their sockets report, and the devices that the timer of
the node connects again. -/
namespace RemoteObjects.Client.Reconnects
open Devices Transition

section Model
variable (Conn Url : Type)

inductive SocketError
  | connectionRefused | remoteHostClosed | hostNotFound | socketAccess | socketResource | socketTimeout
  | datagramTooLarge | network | addressInUse | socketAddressNotAvailable | unsupportedSocketOperation
  | proxyAuthenticationRequired | sslHandshakeFailed | unfinishedSocketOperation | proxyConnectionRefused
  | proxyConnectionClosed | proxyConnectionTimeout | proxyNotFound | proxyProtocol | operation
  | sslInternal | sslInvalidUserData | temporary | unknownSocketError
deriving DecidableEq

/-- The host has no address, the socket starts to connect, or it fails at once. -/
inductive Attempt
  | unresolved
  | connecting
  | failed (error : SocketError)
deriving DecidableEq

/-- `errorOccurred` comes with or without the end of the socket, `closing` is the way to this end by
`ClosingState`. -/
inductive Event
  | initConnection (address : Url) (created : Option (Conn × Attempt))
  | connected (connection : Conn)
  | errorOccurred (connection : Conn) (error : SocketError) (ends : Bool)
  | closing (connection : Conn)
  | disconnected (connection : Conn)
  | disconnectFromServer (connection : Conn)
  | readyRead (connection : Conn) (packets : List Packet)
  | timerEvent (attempts : Conn → Attempt)
  | destroyed (connection : Conn)

variable {Conn Url} [DecidableEq Conn] [DecidableEq Url] (s : NodePrivate Conn Url) (connection : Conn) (device : Device Url)

def onError : SocketError → NodePrivate Conn Url
  | .hostNotFound | .connectionRefused | .network => s.onShouldReconnect connection device
  | _ => s.setDevice connection device

/-- `ClosingState`: a device that is not closing aborts its socket. -/
def onStateChanged : NodePrivate Conn Url :=
  if device.m_isClosing then s.setDevice connection { device with socket := .closing }
  else s.onShouldReconnect connection device.disconnected

/-- A name without an address is only logged. A socket that is not unconnected refuses. -/
def connectToServer (attempt : Attempt) : NodePrivate Conn Url :=
  if device.isOpen then s
  else
    match attempt with
    | .unresolved => s
    | .connecting => if device.socket = .unconnected then s.setDevice connection { device with socket := .connecting } else s
    | .failed error => if device.socket = .unconnected then onError s connection device error else s

/-- An attempt to connect goes on until there is a connection to end. -/
def doDisconnectFromServer : Device Url :=
  if device.socket = .connected then
    if device.m_isClosing then { device with socket := .closing } else device.disconnected
  else device

/-- What the timer does with one of the waiting devices. -/
def reconnect (attempts : Conn → Attempt) (s : NodePrivate Conn Url) (connection : Conn) : NodePrivate Conn Url :=
  match s.devices connection with
  | none => s
  | some device =>
    if device.isOpen then { s with pendingReconnect := s.pendingReconnect.filter fun other => other ≠ connection }
    else connectToServer s connection device (attempts connection)

def timerEvent (attempts : Conn → Attempt) : NodePrivate Conn Url :=
  let s := s.pendingReconnect.foldl (reconnect attempts) s
  { s with reconnectTimer := s.reconnectTimer && !s.pendingReconnect.isEmpty }

/-- One step of the node, or nothing where it cannot happen or would crash. -/
def step : Event Conn Url → Option (NodePrivate Conn Url)
  | .initConnection address created =>
    if address ∈ s.requestedUrls then some s
    else
      let s := { s with requestedUrls := address :: s.requestedUrls }
      match created with
      | some (connection, attempt) =>
        if (s.devices connection).isSome then none
        else
          let device := .new (some address) .unconnected
          some (connectToServer (s.setDevice connection device) connection device attempt)
      | none => some s
  | .connected connection => do
    let device ← s.alive connection
    if device.socket = .connecting then some (s.setDevice connection { device with socket := .connected }) else none
  | .errorOccurred connection error ends => do
    let device ← s.alive connection
    some (onError s connection (if ends then device.disconnected else device) error)
  | .closing connection => do
    let device ← s.alive connection
    if device.socket = .connected then some (onStateChanged s connection device) else none
  | .disconnected connection => do
    let device ← s.alive connection
    if device.socket = .closing then some (s.setDevice connection device.disconnected) else none
  | .disconnectFromServer connection => do
    let device ← s.alive connection
    some (s.onShouldReconnect connection (doDisconnectFromServer device))
  | .readyRead connection packets => do
    let device ← s.alive connection
    if device.socket = .connected ∨ device.socket = .closing then
      let (connectedSources, device) := onClientRead connection packets s.connectedSources device
      some { s.setDevice connection device with connectedSources }
    else none
  | .timerEvent attempts =>
    if s.reconnectTimer ∧ ∀ connection ∈ s.pendingReconnect, (s.alive connection).isSome then some (timerEvent s attempts)
    else none
  | .destroyed connection => do
    let device ← s.alive connection
    if device.deletesLater then some (s.setDevice connection { device with destroyed := true }) else none

end Model

section Statement
variable {Conn Url : Type} (s : NodePrivate Conn Url)

/-- No requested URL is forgotten. -/
def Remembered : Prop :=
  ∀ connection device, s.alive connection = some device → (∃ url ∈ device.url, url ∈ s.requestedUrls) →
    device.m_isClosing = false → device.isOpen = true ∨ connection ∈ s.pendingReconnect ∧ s.reconnectTimer = true

/-- The errors behind which a device asks for a reconnection. -/
def SocketError.reported : SocketError → Bool
  | .hostNotFound | .connectionRefused | .network => true
  | _ => false

def Attempt.reported : Attempt → Bool
  | .unresolved => false
  | .connecting => true
  | .failed error => error.reported

/-- The first attempt of a device starts or fails with an error that is reported, and a socket that ends with another
error, and not by `ClosingState`, belongs to a device that waits already or is closing. -/
def failuresReported : Event Conn Url → Prop
  | .initConnection address created =>
    address ∉ s.requestedUrls → ∀ connection attempt, created = some (connection, attempt) → s.devices connection = none →
      attempt.reported = true
  | .errorOccurred connection error ends =>
    ∀ device, s.alive connection = some device →
      ends = true → error.reported = false → device.m_isClosing = false → connection ∈ s.pendingReconnect
  | _ => True

end Statement

variable {Conn Url : Type} {s t : NodePrivate Conn Url} {connection : Conn} {device before : Device Url}

/-- All URLs of devices are requested, and while devices wait the timer is active. Only devices wait. -/
structure Settled (s : NodePrivate Conn Url) : Prop where
  requested : ∀ connection device, s.devices connection = some device → ∃ url ∈ device.url, url ∈ s.requestedUrls
  ticking : ∀ connection ∈ s.pendingReconnect, s.reconnectTimer = true
  known : ∀ connection ∈ s.pendingReconnect, s.devices connection ≠ none

/-- The device is not forgotten, where it is one that counts. -/
def Kept (s : NodePrivate Conn Url) (connection : Conn) (device : Device Url) : Prop :=
  device.destroyed = false → device.m_isClosing = false → device.isOpen = true ∨ connection ∈ s.pendingReconnect

theorem Settled.remembered_iff (settled : Settled s) :
    Remembered s ↔ ∀ connection device, s.devices connection = some device → Kept s connection device := by
  constructor
  · intro remembered connection device here alive opened
    have kept := remembered connection device (alive_some.mpr ⟨here, alive⟩) (settled.requested connection device here) opened
    exact kept.imp_right And.left
  · intro kept connection device alive _ opened
    obtain ⟨here, notDestroyed⟩ := alive_some.mp alive
    exact (kept connection device here notDestroyed opened).imp_right fun waits => ⟨waits, settled.ticking connection waits⟩

theorem settled_initial : Settled (.initial : NodePrivate Conn Url) := by
  constructor
  · intro _ _ here
    contradiction
  · intro _ waits
    exact absurd waits List.not_mem_nil
  · intro _ waits
    exact absurd waits List.not_mem_nil

theorem remembered_initial : Remembered (.initial : NodePrivate Conn Url) := by
  intro _ _ alive
  contradiction

/-- No device is forgotten but perhaps this one. -/
def OthersKept (s : NodePrivate Conn Url) (connection : Conn) : Prop :=
  ∀ c device, c ≠ connection → s.devices c = some device → Kept s c device

theorem Settled.others (settled : Settled s) (remembered : Remembered s) (connection : Conn) : OthersKept s connection :=
  fun c device _ here => settled.remembered_iff.mp remembered c device here

/-- Where only one device changes, it alone decides. -/
theorem Settled.change (settled : Settled s) (kept : OthersKept s connection) (own : t.devices connection = some device)
    (url : ∃ url ∈ device.url, url ∈ t.requestedUrls) (urls : s.requestedUrls ⊆ t.requestedUrls)
    (ticking : ∀ c ∈ t.pendingReconnect, t.reconnectTimer = true)
    (others : ∀ c, c ≠ connection → t.devices c = s.devices c ∧ (c ∈ t.pendingReconnect ↔ c ∈ s.pendingReconnect)) :
    Settled t ∧ (Remembered t ↔ Kept t connection device) := by
  have all : Settled t := by
    refine ⟨fun c other here => ?_, ticking, fun c waits => ?_⟩
    · by_cases same : c = connection
      · subst same
        obtain rfl := Option.some.inj (own.symm.trans here)
        exact url
      · rw [(others c same).1] at here
        obtain ⟨address, has, requested⟩ := settled.requested c other here
        exact ⟨address, has, urls requested⟩
    · by_cases same : c = connection
      · rw [same, own]
        exact Option.some_ne_none device
      · obtain ⟨unchanged, waiting⟩ := others c same
        rw [unchanged]
        exact settled.known c (waiting.mp waits)
  refine ⟨all, all.remembered_iff.trans ?_⟩
  constructor
  · intro remembered
    exact remembered connection device own
  · intro here c other there
    by_cases same : c = connection
    · subst same
      obtain rfl := Option.some.inj (own.symm.trans there)
      exact here
    · obtain ⟨unchanged, waits⟩ := others c same
      rw [unchanged] at there
      intro alive opened
      exact (kept c other same there alive opened).imp_right waits.mpr

section Steps
variable [DecidableEq Conn]

theorem Settled.setDevice (settled : Settled s) (kept : OthersKept s connection) (device : Device Url)
    (url : ∃ url ∈ device.url, url ∈ s.requestedUrls) :
    Settled (s.setDevice connection device) ∧ (Remembered (s.setDevice connection device) ↔ Kept s connection device) := by
  apply settled.change kept
  · exact Function.update_self connection _ s.devices
  · exact url
  · exact List.Subset.refl _
  · exact settled.ticking
  · intro c apart
    exact ⟨Function.update_of_ne apart _ s.devices, Iff.rfl⟩

variable [DecidableEq Url]

/-- A device that asks for a reconnection waits from then on. -/
theorem Settled.onShouldReconnect (settled : Settled s) (kept : OthersKept s connection) (device : Device Url)
    (url : ∃ url ∈ device.url, url ∈ s.requestedUrls) :
    Settled (s.onShouldReconnect connection device) ∧ Remembered (s.onShouldReconnect connection device) ∧
      (s.onShouldReconnect connection device).reconnectTimer = true := by
  let asking : NodePrivate Conn Url :=
    { s.setDevice connection { device with m_remoteObjects := [] } with
      connectedSources := fun name => if name ∈ device.m_remoteObjects then none else s.connectedSources name
      pendingReconnect := s.pendingReconnect.insert connection
      reconnectTimer := true }
  have asks : s.onShouldReconnect connection device = asking := if_pos url
  rw [asks]
  have own : asking.devices connection = some { device with m_remoteObjects := [] } := Function.update_self ..
  obtain ⟨after, decides⟩ := settled.change kept own url (List.Subset.refl s.requestedUrls) (fun _ _ => rfl)
    fun c apart => ⟨Function.update_of_ne apart .., List.mem_insert_iff.trans (or_iff_right apart)⟩
  exact ⟨after, decides.mpr fun _ _ => .inr List.mem_insert_self, rfl⟩

theorem onError_eq (s : NodePrivate Conn Url) (connection : Conn) (device : Device Url) (error : SocketError) :
    onError s connection device error =
      if error.reported then s.onShouldReconnect connection device else s.setDevice connection device := by
  cases error <;> rfl

/-- What a socket reports keeps the device if the node is told of it. -/
theorem Settled.onError (settled : Settled s) (kept : OthersKept s connection)
    (url : ∃ url ∈ device.url, url ∈ s.requestedUrls) (error : SocketError) :
    Settled (onError s connection device error) ∧
      (Remembered (onError s connection device error) ↔ error.reported = true ∨ Kept s connection device) ∧
      (s.reconnectTimer = true → (onError s connection device error).reconnectTimer = true) := by
  rw [onError_eq]
  split
  · rename_i reported
    obtain ⟨after, remembered, active⟩ := settled.onShouldReconnect kept device url
    exact ⟨after, iff_of_true remembered (.inl reported), fun _ => active⟩
  · rename_i silent
    obtain ⟨after, decides⟩ := settled.setDevice kept device url
    exact ⟨after, decides.trans (or_iff_right silent).symm, id⟩

/-- An attempt keeps a device that was kept before, or one whose socket starts to connect or reports why it does not. -/
theorem Settled.connectToServer (settled : Settled s) (kept : OthersKept s connection) (here : s.devices connection = some device)
    (attempt : Attempt) :
    Settled (connectToServer s connection device attempt) ∧
      (Remembered (connectToServer s connection device attempt) ↔
        device.socket = .unconnected ∧ attempt.reported = true ∨ Kept s connection device) ∧
      (s.reconnectTimer = true → (connectToServer s connection device attempt).reconnectTimer = true) := by
  have url := settled.requested connection device here
  have decides : Remembered s ↔ Kept s connection device := by
    apply (settled.change kept here url (List.Subset.refl _) settled.ticking ?_).2
    exact fun _ _ => ⟨rfl, Iff.rfl⟩
  unfold Reconnects.connectToServer
  split
  · rename_i isOpen
    have own : Kept s connection device := fun _ _ => .inl isOpen
    exact ⟨settled, iff_of_true (decides.mpr own) (.inr own), id⟩
  · cases attempt with
    | unresolved => exact ⟨settled, decides.trans (or_iff_right fun both => Bool.false_ne_true both.2).symm, id⟩
    | connecting =>
      dsimp only
      split
      · rename_i unconnected
        obtain ⟨after, opens⟩ := settled.setDevice kept { device with socket := .connecting } url
        have own : Kept s connection { device with socket := .connecting } := by
          intro _ opened
          rw [Device.isOpen, opened]
          exact .inl rfl
        exact ⟨after, iff_of_true (opens.mpr own) (.inl ⟨unconnected, rfl⟩), id⟩
      · rename_i busy
        exact ⟨settled, decides.trans (or_iff_right fun both => busy both.1).symm, id⟩
    | failed error =>
      dsimp only
      split
      · rename_i unconnected
        obtain ⟨after, tells, still⟩ := settled.onError kept url error
        exact ⟨after, tells.trans (or_congr_left (and_iff_right unconnected).symm), still⟩
      · rename_i busy
        exact ⟨settled, decides.trans (or_iff_right fun both => busy both.1).symm, id⟩

theorem Settled.reconnect (settled : Settled s) (remembered : Remembered s) (active : s.reconnectTimer = true)
    (attempts : Conn → Attempt) (connection : Conn) :
    Settled (reconnect attempts s connection) ∧ Remembered (reconnect attempts s connection) ∧
      (reconnect attempts s connection).reconnectTimer = true := by
  have kept := settled.remembered_iff.mp remembered
  unfold Reconnects.reconnect
  split
  · exact ⟨settled, remembered, active⟩
  · rename_i device here
    split
    · rename_i isOpen
      have fewer : Settled { s with pendingReconnect := s.pendingReconnect.filter fun other => other ≠ connection } :=
        ⟨settled.requested, fun _ _ => active, fun c waits => settled.known c (List.mem_of_mem_filter waits)⟩
      refine ⟨fewer, fewer.remembered_iff.mpr fun c other there alive opened => ?_, active⟩
      by_cases same : c = connection
      · subst same
        obtain rfl := Option.some.inj (here.symm.trans there)
        exact .inl isOpen
      · refine (kept c other there alive opened).imp_right fun waits => ?_
        exact List.mem_filter.mpr ⟨waits, decide_eq_true same⟩
    · obtain ⟨after, decides, still⟩ := settled.connectToServer (settled.others remembered connection) here (attempts connection)
      exact ⟨after, decides.mpr (.inr (kept connection device here)), still active⟩

/-- The timer forgets no device, and it ends only when no device waits. -/
theorem Settled.timerEvent (settled : Settled s) (remembered : Remembered s) (active : s.reconnectTimer = true)
    (attempts : Conn → Attempt) : Settled (timerEvent s attempts) ∧ Remembered (timerEvent s attempts) := by
  have each : ∀ waiting : List Conn, ∀ s : NodePrivate Conn Url, Settled s → Remembered s → s.reconnectTimer = true →
      Settled (waiting.foldl (Reconnects.reconnect attempts) s) ∧ Remembered (waiting.foldl (Reconnects.reconnect attempts) s) ∧
        (waiting.foldl (Reconnects.reconnect attempts) s).reconnectTimer = true := by
    intro waiting
    induction waiting with
    | nil => exact fun _ settled remembered active => ⟨settled, remembered, active⟩
    | cons connection waiting ih =>
      intro s settled remembered active
      obtain ⟨after, kept, still⟩ := settled.reconnect remembered active attempts connection
      exact ih _ after kept still
  obtain ⟨after, kept, still⟩ := each s.pendingReconnect s settled remembered active
  have ticking : Settled (Reconnects.timerEvent s attempts) := by
    refine ⟨after.requested, fun c waits => ?_, after.known⟩
    have some : (s.pendingReconnect.foldl (Reconnects.reconnect attempts) s).pendingReconnect ≠ [] := List.ne_nil_of_mem waits
    simpa [Reconnects.timerEvent, still] using some
  exact ⟨ticking, ticking.remembered_iff.mpr (after.remembered_iff.mp kept)⟩

/-- A new device is remembered if its first attempt is one that is reported. -/
theorem Settled.initConnection (settled : Settled s) (remembered : Remembered s) (new : s.devices connection = none)
    {address : Url} (requested : address ∈ s.requestedUrls) (attempt : Attempt) :
    Settled (Reconnects.connectToServer (s.setDevice connection (.new (some address) .unconnected)) connection
        (.new (some address) .unconnected) attempt) ∧
      (Remembered (Reconnects.connectToServer (s.setDevice connection (.new (some address) .unconnected)) connection
        (.new (some address) .unconnected) attempt) ↔ attempt.reported = true) := by
  have others := settled.others remembered connection
  obtain ⟨placed, _⟩ := settled.setDevice others (.new (some address) .unconnected) ⟨address, rfl, requested⟩
  have kept : OthersKept (s.setDevice connection (.new (some address) .unconnected)) connection := by
    intro c device apart here
    exact others c device apart (here ▸ (Function.update_of_ne apart _ s.devices).symm)
  obtain ⟨after, decides, _⟩ := placed.connectToServer kept (Function.update_self connection _ s.devices) attempt
  refine ⟨after, decides.trans ?_⟩
  have forgotten : ¬ Kept (s.setDevice connection (.new (some address) .unconnected)) connection (.new (some address) .unconnected) := by
    intro kept
    obtain isOpen | waits := kept rfl rfl
    · contradiction
    · exact settled.known connection waits new
  exact (or_iff_left forgotten).trans (and_iff_right rfl)

omit [DecidableEq Conn] [DecidableEq Url] in
/-- The packets that a device reads can close it, and change nothing else that decides. -/
theorem onClientRead_device (connection : Conn) (packets : List Packet) (sources : Host.Name → Option Conn) (device : Device Url) :
    (onClientRead connection packets sources device).2.url = device.url ∧
      (onClientRead connection packets sources device).2.destroyed = device.destroyed ∧
      ((onClientRead connection packets sources device).2.m_isClosing = false →
        device.m_isClosing = false ∧ (onClientRead connection packets sources device).2.socket = device.socket) := by
  have closed : ∀ device : Device Url, device.close.url = device.url ∧ device.close.destroyed = device.destroyed ∧
      device.close.m_isClosing = true := by
    intro device
    simp only [Device.close]
    split
    · exact ⟨rfl, rfl, rfl⟩
    · split <;> exact ⟨rfl, rfl, rfl⟩
  induction packets generalizing sources device with
  | nil => exact ⟨rfl, rfl, fun opened => ⟨opened, rfl⟩⟩
  | cons packet packets ih =>
    have stops : device.close.url = device.url ∧ device.close.destroyed = device.destroyed ∧
        (device.close.m_isClosing = false → device.m_isClosing = false ∧ device.close.socket = device.socket) := by
      obtain ⟨url, destroyed, closing⟩ := closed device
      refine ⟨url, destroyed, fun opened => ?_⟩
      rw [closing] at opened
      contradiction
    cases packet with
    | handshake version =>
      rw [onClientRead]
      split
      · obtain ⟨url, destroyed, closing⟩ := closed device
        obtain ⟨urls, destroys, opens⟩ := ih sources device.close
        refine ⟨urls.trans url, destroys.trans destroyed, fun opened => ?_⟩
        have still := (opens opened).1
        rw [closing] at still
        contradiction
      · exact ih sources { device with hasCodec := true }
    | objectList names =>
      rw [onClientRead]
      split
      · obtain ⟨_, ⟨remoteObjects, same⟩, _⟩ := @objectList_spec _ _ connection sources device names
        obtain ⟨urls, destroys, opens⟩ := ih (objectList connection names sources device).1 (objectList connection names sources device).2
        refine ⟨urls.trans (by rw [same]), destroys.trans (by rw [same]), fun opened => ?_⟩
        obtain ⟨before, socket⟩ := opens opened
        exact ⟨by rwa [same] at before, socket.trans (by rw [same])⟩
      · exact stops
    | removeObject name =>
      rw [onClientRead]
      split
      · exact ih _ _
      · exact stops
    | other =>
      simp only [onClientRead]
      split
      · exact ih sources device
      · exact stops

omit [DecidableEq Conn] [DecidableEq Url] in
/-- One more URL is requested. -/
theorem Settled.request (settled : Settled s) (address : Url) : Settled { s with requestedUrls := address :: s.requestedUrls } := by
  refine ⟨fun c device here => ?_, settled.ticking, settled.known⟩
  obtain ⟨url, has, before⟩ := settled.requested c device here
  exact ⟨url, has, List.mem_cons_of_mem address before⟩

/-- An error forgets a device if it ends its socket, is not reported, and the device does not wait. -/
theorem Settled.errorOccurred (settled : Settled s) (remembered : Remembered s) (alive : s.alive connection = some device)
    (error : SocketError) (ends : Bool) :
    Settled (Reconnects.onError s connection (if ends then device.disconnected else device) error) ∧
      (Remembered (Reconnects.onError s connection (if ends then device.disconnected else device) error) ↔
        (ends = true → error.reported = false → device.m_isClosing = false → connection ∈ s.pendingReconnect)) := by
  obtain ⟨here, living⟩ := alive_some.mp alive
  have url : ∃ url ∈ (if ends then device.disconnected else device).url, url ∈ s.requestedUrls := by
    cases ends <;> exact settled.requested connection device here
  obtain ⟨after, decides, _⟩ := settled.onError (settled.others remembered connection) url error
  refine ⟨after, decides.trans ?_⟩
  constructor
  · rintro told rfl silent opened
    obtain reported | kept := told
    · rw [silent] at reported
      contradiction
    · refine (kept living opened).resolve_left ?_
      simp [Device.isOpen, Device.disconnected]
  · intro told
    cases reported : error.reported with
    | true => exact .inl rfl
    | false =>
      right
      cases ends with
      | false => exact settled.remembered_iff.mp remembered connection device here
      | true =>
        intro _ opened
        exact .inr (told rfl reported opened)

/-- A step keeps the claim exactly if the failures in it are reported. -/
theorem settled_step {e : Event Conn Url} (settled : Settled s) (remembered : Remembered s) (stepped : step s e = some t) :
    Settled t ∧ (Remembered t ↔ failuresReported s e) := by
  have keeps := settled.remembered_iff.mp remembered
  cases e with
  | initConnection address created =>
    simp only [step] at stepped
    split at stepped
    · rename_i again
      obtain rfl := Option.some.inj stepped
      exact ⟨settled, iff_of_true remembered fun new => absurd again new⟩
    · rename_i first
      have requested := settled.request address
      have still : Remembered { s with requestedUrls := address :: s.requestedUrls } := requested.remembered_iff.mpr keeps
      split at stepped
      · rename_i connection attempt
        rw [Option.ite_none_left_eq_some, Option.some.injEq] at stepped
        obtain ⟨new, rfl⟩ := stepped
        have new := Option.not_isSome_iff_eq_none.mp new
        obtain ⟨after, decides⟩ := requested.initConnection still new List.mem_cons_self attempt
        refine ⟨after, decides.trans ?_⟩
        constructor
        · rintro reported _ _ _ ⟨⟩ _
          exact reported
        · intro reported
          exact reported first connection attempt rfl new
      · obtain rfl := Option.some.inj stepped
        refine ⟨requested, iff_of_true still ?_⟩
        intro _ _ _ created
        contradiction
  | timerEvent attempts =>
    simp only [step, Option.ite_none_right_eq_some, Option.some.injEq] at stepped
    obtain ⟨⟨active, _⟩, rfl⟩ := stepped
    obtain ⟨after, kept⟩ := settled.timerEvent remembered active attempts
    exact ⟨after, iff_of_true kept trivial⟩
  | errorOccurred connection error ends =>
    simp only [step, Option.bind_eq_bind, Option.bind_eq_some_iff, Option.some.injEq] at stepped
    obtain ⟨device, alive, rfl⟩ := stepped
    obtain ⟨after, decides⟩ := settled.errorOccurred remembered alive error ends
    refine ⟨after, decides.trans ?_⟩
    constructor
    · rintro told other otherAlive
      obtain rfl := Option.some.inj (alive.symm.trans otherAlive)
      exact told
    · exact fun told => told device alive
  | connected connection =>
    simp only [step, Option.bind_eq_bind, Option.bind_eq_some_iff, Option.ite_none_right_eq_some, Option.some.injEq] at stepped
    obtain ⟨device, alive, _, rfl⟩ := stepped
    obtain ⟨here, _⟩ := alive_some.mp alive
    obtain ⟨after, decides⟩ := settled.setDevice (settled.others remembered connection) { device with socket := .connected }
      (settled.requested connection device here)
    refine ⟨after, iff_of_true (decides.mpr fun _ opened => .inl ?_) trivial⟩
    rw [Device.isOpen, opened]
    rfl
  | closing connection =>
    simp only [step, Option.bind_eq_bind, Option.bind_eq_some_iff, Option.ite_none_right_eq_some, Option.some.injEq] at stepped
    obtain ⟨device, alive, _, rfl⟩ := stepped
    obtain ⟨here, _⟩ := alive_some.mp alive
    have others := settled.others remembered connection
    have url := settled.requested connection device here
    unfold onStateChanged
    split
    · rename_i closing
      obtain ⟨after, decides⟩ := settled.setDevice others { device with socket := .closing } url
      refine ⟨after, iff_of_true (decides.mpr fun _ opened => ?_) trivial⟩
      rw [closing] at opened
      contradiction
    · obtain ⟨after, kept, _⟩ := settled.onShouldReconnect others device.disconnected url
      exact ⟨after, iff_of_true kept trivial⟩
  | disconnected connection =>
    simp only [step, Option.bind_eq_bind, Option.bind_eq_some_iff, Option.ite_none_right_eq_some, Option.some.injEq] at stepped
    obtain ⟨device, alive, closing, rfl⟩ := stepped
    obtain ⟨here, living⟩ := alive_some.mp alive
    obtain ⟨after, decides⟩ := settled.setDevice (settled.others remembered connection) device.disconnected
      (settled.requested connection device here)
    refine ⟨after, iff_of_true (decides.mpr fun _ opened => .inr ?_) trivial⟩
    refine (keeps connection device here living opened).resolve_left ?_
    simp [Device.isOpen, closing]
  | disconnectFromServer connection =>
    simp only [step, Option.bind_eq_bind, Option.bind_eq_some_iff, Option.some.injEq] at stepped
    obtain ⟨device, alive, rfl⟩ := stepped
    have url : (doDisconnectFromServer device).url = device.url := by
      unfold doDisconnectFromServer
      split
      · split <;> rfl
      · rfl
    obtain ⟨after, kept, _⟩ := settled.onShouldReconnect (settled.others remembered connection) (doDisconnectFromServer device)
      (url ▸ settled.requested connection device (alive_some.mp alive).1)
    exact ⟨after, iff_of_true kept trivial⟩
  | readyRead connection packets =>
    simp only [step, Option.bind_eq_bind, Option.bind_eq_some_iff, Option.ite_none_right_eq_some, Option.some.injEq] at stepped
    obtain ⟨device, alive, _, rfl⟩ := stepped
    obtain ⟨here, _⟩ := alive_some.mp alive
    obtain ⟨url, destroyed, opens⟩ := onClientRead_device connection packets s.connectedSources device
    obtain ⟨after, decides⟩ := settled.setDevice (settled.others remembered connection)
      (onClientRead connection packets s.connectedSources device).2 (url ▸ settled.requested connection device here)
    refine ⟨⟨after.requested, after.ticking, after.known⟩, iff_of_true (decides.mpr fun living opened => ?_) trivial⟩
    obtain ⟨before, socket⟩ := opens opened
    refine (keeps connection device here (destroyed ▸ living) before).imp_left fun isOpen => ?_
    simpa only [Device.isOpen, opened, before, socket] using isOpen
  | destroyed connection =>
    simp only [step, Option.bind_eq_bind, Option.bind_eq_some_iff, Option.ite_none_right_eq_some, Option.some.injEq] at stepped
    obtain ⟨device, alive, _, rfl⟩ := stepped
    obtain ⟨after, decides⟩ := settled.setDevice (settled.others remembered connection) { device with destroyed := true }
      (settled.requested connection device (alive_some.mp alive).1)
    refine ⟨after, iff_of_true (decides.mpr fun living => ?_) trivial⟩
    contradiction

theorem reported_of_stuck {e : Event Conn Url} (stuck : step s e = none) : failuresReported s e := by
  cases e with
  | initConnection address created =>
    rintro first connection attempt rfl new
    simp only [step, if_neg first, new, Option.isSome_none, Bool.false_eq_true, ↓reduceIte, reduceCtorEq] at stuck
  | errorOccurred connection error ends =>
    intro device alive
    simp only [step, alive, Option.bind_eq_bind, Option.bind_some, reduceCtorEq] at stuck
  | _ => trivial

/-- In every run of a client node with TCP devices, no requested URL is forgotten exactly if each failure of a socket is
reported, or comes while its device waits for the timer. -/
theorem remembered_run_iff {es : List (Event Conn Url)} :
    Admitted step (fun s e => ∀ t, step s e = some t → Remembered t) .initial es ↔ Admitted step failuresReported .initial es := by
  apply admitted_iff_of_kept (P := fun s => Settled s ∧ Remembered s)
  · intro s e t good claim stepped
    exact ⟨(settled_step good.1 good.2 stepped).1, claim t stepped⟩
  · intro s e good
    constructor
    · intro claim
      cases stepped : step s e with
      | none => exact reported_of_stuck stepped
      | some t => exact (settled_step good.1 good.2 stepped).2.mp (claim t stepped)
    · intro reported t stepped
      exact (settled_step good.1 good.2 stepped).2.mpr reported
  · exact ⟨settled_initial, remembered_initial⟩

/-- A host name that has no address yet, and an attempt that is not answered. -/
theorem unreported_forgotten :
    (∃ t, exec step (.initial : NodePrivate Unit Unit) [.initConnection () (some ((), .unresolved))] = some t ∧
      ¬ Remembered t ∧ t.reconnectTimer = false) ∧
    ∃ t, exec step (.initial : NodePrivate Unit Unit)
      [.initConnection () (some ((), .connecting)), .errorOccurred () .connectionRefused true, .timerEvent fun _ => .connecting,
        .timerEvent fun _ => .connecting, .errorOccurred () .socketTimeout true] = some t ∧
      ¬ Remembered t ∧ t.reconnectTimer = false := by
  constructor
  · refine ⟨_, rfl, fun remembered => ?_, rfl⟩
    obtain isOpen | ⟨waits, _⟩ := remembered () _ rfl ⟨(), rfl, List.mem_cons_self⟩ rfl
    · contradiction
    · contradiction
  · refine ⟨_, rfl, fun remembered => ?_, rfl⟩
    obtain isOpen | ⟨_, active⟩ := remembered () _ rfl ⟨(), rfl, List.mem_cons_self⟩ rfl
    · contradiction
    · contradiction

end Steps
end RemoteObjects.Client.Reconnects
