import Cashbox.Btc.Handshake

/-!
# Connected peers

The listeners are told of a peer once, after an acceptable version message and a verack,
and of its messages only after that. The exceptions are two: an event that completes the
handshake and ends in an error further on leaves the peer connected without a word to the
listeners, and a negative height of an outgoing peer is compared as an unsigned number.
-/

namespace Cashbox.Btc.P2P

open Cashbox.Lib

/-! ## What is asked of a peer -/

section Property

variable (cfg : Config) (outgoing : Bool)

/-- The version message of a peer to talk to. -/
def Acceptable (m : VersionMessage) (height : UInt32) : Prop :=
  m.nonce ≠ cfg.nonce ∧ minProtocolVersion ≤ m.version ∧
    cfg.neededServices &&& m.services = cfg.neededServices ∧
    (outgoing = true → (height.toNat : Int) ≤ m.startHeight.toInt)

/-- What may happen after `pre`. -/
def Allowed (pre : List Happening) : Happening → Prop
  | .version _ _ => ∀ m height, .version m height ∉ pre
  | .verack => .verack ∉ pre
  | .connected => .connected ∉ pre ∧ .verack ∈ pre ∧
      ∃ m height, .version m height ∈ pre ∧ Acceptable cfg outgoing m height
  | .incoming _ => .connected ∈ pre
  | .disconnected _ => True

/-- All that happened was allowed when it happened. -/
def InOrder (log : List Happening) : Prop :=
  ∀ pre x post, log = pre ++ x :: post → Allowed cfg outgoing pre x

/-- The listeners know of a peer that is connected, and what they were told was in order. -/
structure HandshakeOk (s : Link) : Prop where
  order : InOrder cfg outgoing s.log
  connected : ∀ peer src, s.peer = some (peer, src) → peer.connected = true → .connected ∈ s.log

end Property

/-! ## The condition -/

section Condition

variable (cfg : Config) (env : Env) (outgoing : Bool)

/-- The version message is taken, and what is sent in answer goes out. -/
def Accepts (m : VersionMessage) : Prop :=
  m.nonce ≠ cfg.nonce ∧ minProtocolVersion ≤ m.version ∧
    cfg.neededServices &&& m.services = cfg.neededServices ∧
    (outgoing = false → env.peerAddr = true ∧ env.sendVersion = true) ∧
    (outgoing = true → env.height ≤ m.startHeight.toUInt32) ∧ env.sendVerack = true

/-- A peer with this version and verack completes its handshake with the first of these
messages; `height` is the one that its version message gives. -/
inductive Completes : Option UInt32 → Bool → List NetworkMessage → UInt32 → Prop where
  | verack (height : UInt32) (msgs : List NetworkMessage) :
      Completes (some height) false (.verack :: msgs) height
  | version (m : VersionMessage) (hm : Accepts cfg env outgoing m) (msgs : List NetworkMessage) :
      Completes none true (.version m :: msgs) m.startHeight.toUInt32
  | afterVersion (m : VersionMessage) (hm : Accepts cfg env outgoing m)
      {msgs : List NetworkMessage} {height : UInt32}
      (h : Completes (some m.startHeight.toUInt32) false msgs height) :
      Completes none false (.version m :: msgs) height
  | afterVerack {msgs : List NetworkMessage} {height : UInt32}
      (h : Completes none true msgs height) : Completes none false (.verack :: msgs) height

/-- The condition on a read of the socket: where it completes the handshake, all its bytes
are decoded, unless the error ends in a ban, and an outgoing peer gives no negative height,
unless nothing was read and the peer is left. -/
def ReadOk (sha256d : Bytes → Sha256dHash) (peer : Peer) (src : Buffer) (bytes : Bytes) : Prop :=
  let (_, msgs, ended) := receive sha256d src bytes
  ∀ height, peer.connected = false →
    Completes cfg env peer.outgoing (peer.version.map VersionCarrier.startHeight) peer.gotVerack
      (msgs.map RawNetworkMessage.payload) height →
    match ended with
    | .ok () => bytes ≠ [] → peer.outgoing = true → height < 0x80000000
    | .err _ => Link.banLimit ≤ peer.ban + 10
    | .panic _ => False

/-- The condition on an action. -/
def Action.Ok (sha256d : Bytes → Sha256dHash) (s : Link) : Action → Prop
  | .ready true (some ⟨some bytes, env⟩) => s.dead = false → ∀ peer src,
      s.peer = some (peer, src) → ReadOk cfg env sha256d peer src bytes
  | _ => True

end Condition

/-! ## Order -/

section Order

variable {cfg : Config} {outgoing : Bool} {log : List Happening} {x : Happening}

theorem inOrder_nil : InOrder cfg outgoing [] := by
  intro pre x post h
  simp at h

theorem inOrder_concat :
    InOrder cfg outgoing (log ++ [x]) ↔ InOrder cfg outgoing log ∧ Allowed cfg outgoing log x :=
  forall_place_concat

/-- Messages may go to the listeners once they know the peer. -/
theorem InOrder.append_incoming (h : InOrder cfg outgoing log) (hc : .connected ∈ log)
    (msgs : List NetworkMessage) : InOrder cfg outgoing (log ++ msgs.map .incoming) := by
  induction msgs using List.reverseRecOn with
  | nil => simpa using h
  | append_singleton msgs msg ih =>
    rw [List.map_append, ← List.append_assoc]
    exact inOrder_concat.mpr ⟨ih, List.mem_append_left _ hc⟩

end Order

/-! ## The handshake of a peer -/

section Tracks

variable (cfg : Config)

/-- The version that a peer has is that of a message that was taken. -/
def TakenAs (outgoing : Bool) (c : VersionCarrier) (m : VersionMessage) (height : UInt32) : Prop :=
  c.startHeight = m.startHeight.toUInt32 ∧ m.nonce ≠ cfg.nonce ∧ minProtocolVersion ≤ m.version ∧
    cfg.neededServices &&& m.services = cfg.neededServices ∧
    (outgoing = true → height ≤ m.startHeight.toUInt32)

/-- The peer has what its handshake took. -/
structure Tracks (peer : Peer) (log : List Happening) : Prop where
  verack : peer.gotVerack = true ↔ .verack ∈ log
  noVersion : peer.version = none → ∀ m height, .version m height ∉ log
  hasVersion : ∀ c, peer.version = some c → (∃ m height, .version m height ∈ log) ∧
    ∀ m height, .version m height ∈ log → TakenAs cfg peer.outgoing c m height

/-- A peer in the middle of its handshake, with `log` before the event. -/
structure Shaking (log : List Happening) (st : ReadState) : Prop where
  connected : st.peer.connected = false
  handshake : st.handshake = false
  incoming : st.incoming = []
  open_ : st.peer.version = none ∨ st.peer.gotVerack = false
  tracks : Tracks cfg st.peer (log ++ st.taken)
  order : InOrder cfg st.peer.outgoing (log ++ st.taken)
  silent : .connected ∉ log ++ st.taken

/-- A peer whose handshake the event completed, with a version of this height. -/
structure Shaken (log : List Happening) (height : UInt32) (st : ReadState) : Prop where
  connected : st.peer.connected = true
  handshake : st.handshake = true
  gotVerack : st.peer.gotVerack = true
  version : ∃ c, st.peer.version = some c ∧ c.startHeight = height
  tracks : Tracks cfg st.peer (log ++ st.taken)
  order : InOrder cfg st.peer.outgoing (log ++ st.taken)
  silent : .connected ∉ log ++ st.taken

variable (env : Env)

/-- Handling messages one after the other. -/
def handleAll : ReadState → List NetworkMessage → ReadState × Flow
  | st, [] => (st, .next)
  | st, msg :: msgs =>
    match handle cfg env st msg with
    | (st, .next) => handleAll st msgs
    | r => r

/-- What one message does to a peer whose handshake is not complete. -/
inductive HandleCase (st : ReadState) : NetworkMessage → ReadState × Flow → Prop where
  | version (m : VersionMessage) (vm : VersionCarrier) (sender : List NetworkMessage)
      (hnone : st.peer.version = none) (hm : Accepts cfg env st.peer.outgoing m)
      (hvm : vm.startHeight = m.startHeight.toUInt32) :
      HandleCase st (.version m) (complete ({ st with
        peer := { st.peer with version := some vm, sender := sender }
        taken := st.taken ++ [.version m env.height] }, .next))
  | verack (hno : st.peer.gotVerack = false) :
      HandleCase st .verack (complete ({ st with
        peer := { st.peer with gotVerack := true }
        taken := st.taken ++ [.verack] }, .next))
  | ended (msg : NetworkMessage) (sender : List NetworkMessage) (disconnect ban : Bool)
      (flow : Flow)
      (hno : ∀ msgs height, ¬ Completes cfg env st.peer.outgoing
        (st.peer.version.map VersionCarrier.startHeight) st.peer.gotVerack (msg :: msgs) height)
      (hflow : flow = .fail ∨ flow = .stop ∧ disconnect = true) :
      HandleCase st msg ({ st with
        peer := { st.peer with sender := sender }
        disconnect := disconnect
        ban := ban }, flow)

variable {cfg env} {outgoing : Bool}

theorem not_completes_nil {version : Option UInt32} {gotVerack : Bool} {height : UInt32} :
    ¬ Completes cfg env outgoing version gotVerack [] height := fun hc => nomatch hc

/-- The messages of an event complete the handshake with one height at most. -/
theorem Completes.unique {version : Option UInt32} {gotVerack : Bool} {msgs : List NetworkMessage}
    {height height' : UInt32} (h : Completes cfg env outgoing version gotVerack msgs height)
    (h' : Completes cfg env outgoing version gotVerack msgs height') : height = height' := by
  induction h with
  | verack height msgs =>
    cases h'
    rfl
  | version m hm msgs =>
    cases h'
    rfl
  | afterVersion m hm h ih =>
    cases h' with
    | afterVersion _ _ h' => exact ih h'
  | afterVerack h ih =>
    cases h' with
    | afterVerack h' => exact ih h'

/-- A version message that is refused does not complete the handshake. -/
theorem not_completes_version {version : Option UInt32} {gotVerack : Bool} {m : VersionMessage}
    (h : version.isSome ∨ ¬ Accepts cfg env outgoing m) (msgs : List NetworkMessage)
    (height : UInt32) :
    ¬ Completes cfg env outgoing version gotVerack (.version m :: msgs) height := by
  intro hc
  rcases h with hsome | hno
  · cases hc <;> simp at hsome
  · cases hc with
    | version _ hm => exact hno hm
    | afterVersion _ hm _ => exact hno hm

theorem acknowledge_cases (cfg : Config) (env : Env) (st : ReadState) (m : VersionMessage) :
    (env.sendVerack = true ∧ ∃ vm sender, vm.startHeight = m.startHeight.toUInt32 ∧
      acknowledge cfg env st m = ({ st with
        peer := { st.peer with version := some vm, sender := sender }
        taken := st.taken ++ [.version m env.height] }, .next)) ∨
    (env.sendVerack = false ∧ ∃ sender, acknowledge cfg env st m =
      ({ st with peer := { st.peer with sender := sender } }, .fail)) := by
  unfold acknowledge
  cases env.sendVerack with
  | true => exact .inl ⟨rfl, _, _, rfl, rfl⟩
  | false => exact .inr ⟨rfl, _, rfl⟩

theorem handleVersion_cases {st : ReadState} (m : VersionMessage) :
    HandleCase cfg env st (.version m) (complete (handleVersion cfg env st m)) := by
  have hmap : (st.peer.version.map VersionCarrier.startHeight).isSome = st.peer.version.isSome := by
    simp
  unfold handleVersion
  by_cases hsome : st.peer.version.isSome
  · -- a second version message ends the connection
    rw [if_pos hsome]
    exact .ended _ st.peer.sender true true .stop
      (not_completes_version (.inl (by rw [hmap]; exact hsome))) (.inr ⟨rfl, rfl⟩)
  have hnone : st.peer.version = none := by simpa using hsome
  rw [if_neg hsome]
  by_cases hself : (carrier m).nonce = cfg.nonce
  · -- the nonce is our own
    rw [if_pos hself]
    exact .ended _ st.peer.sender true true .stop
      (not_completes_version (.inr fun hm => hm.1 hself)) (.inr ⟨rfl, rfl⟩)
  rw [if_neg hself]
  by_cases hold : (carrier m).version < minProtocolVersion ∨
      cfg.neededServices &&& (carrier m).services ≠ cfg.neededServices
  · rw [if_pos hold]
    refine .ended _ st.peer.sender true st.ban .stop (not_completes_version (.inr fun hm => ?_))
      (.inr ⟨rfl, rfl⟩)
    rcases hold with hversion | hservices
    · exact absurd hm.2.1 (UInt32.not_le.mpr hversion)
    · exact hservices hm.2.2.1
  rw [if_neg hold]
  rw [not_or, not_not] at hold
  have hversion : minProtocolVersion ≤ m.version := UInt32.not_lt.mp hold.1
  cases hout : st.peer.outgoing with
  | false =>
    -- an incoming peer is answered with our version first
    simp only [Bool.not_false, if_true]
    by_cases haddr : env.peerAddr = true
    · by_cases hsend : env.sendVersion = true
      · simp only [haddr, hsend, Bool.not_true, Bool.false_eq_true, if_false]
        rcases acknowledge_cases cfg env { st with peer := { st.peer with
          sender := st.peer.sender ++ [cfg.version (carrier m).version] } } m with
          ⟨hack, vm, sender, hvm, heq⟩ | ⟨hack, sender, heq⟩
        · rw [heq]
          exact .version m vm sender hnone
            ⟨hself, hversion, hold.2, fun _ => ⟨haddr, hsend⟩, by simp [hout], hack⟩ hvm
        · rw [heq]
          refine .ended _ sender st.disconnect st.ban .fail
            (not_completes_version (.inr fun hm => ?_)) (.inl rfl)
          rw [hm.2.2.2.2.2] at hack
          cases hack
      · simp only [haddr, hsend, Bool.not_true, Bool.not_false, Bool.false_eq_true, if_false,
          if_true]
        exact .ended _ _ st.disconnect st.ban .fail (not_completes_version
          (.inr fun hm => hsend (hm.2.2.2.1 hout).2)) (.inl rfl)
    · simp only [haddr, Bool.not_false, if_true]
      exact .ended _ st.peer.sender st.disconnect st.ban .fail (not_completes_version
        (.inr fun hm => haddr (hm.2.2.2.1 hout).1)) (.inl rfl)
  | true =>
    -- an outgoing peer has to be as high as we are
    simp only [Bool.not_true, Bool.false_eq_true, if_false]
    by_cases hbehind : (carrier m).startHeight < env.height
    · rw [if_pos hbehind]
      refine .ended _ st.peer.sender true st.ban .stop (not_completes_version (.inr fun hm => ?_))
        (.inr ⟨rfl, rfl⟩)
      exact absurd (hm.2.2.2.2.1 hout) (UInt32.not_le.mpr hbehind)
    · rw [if_neg hbehind]
      rcases acknowledge_cases cfg env st m with
        ⟨hack, vm, sender, hvm, heq⟩ | ⟨hack, sender, heq⟩
      · rw [heq]
        exact .version m vm sender hnone ⟨hself, hversion, hold.2, by simp [hout],
          fun _ => UInt32.not_lt.mp hbehind, hack⟩ hvm
      · rw [heq]
        refine .ended _ sender st.disconnect st.ban .fail
          (not_completes_version (.inr fun hm => ?_)) (.inl rfl)
        rw [hm.2.2.2.2.2] at hack
        cases hack

theorem handle_cases {st : ReadState} (hconnected : st.peer.connected = false)
    (hopen : st.peer.version = none ∨ st.peer.gotVerack = false) (msg : NetworkMessage) :
    HandleCase cfg env st msg (handle cfg env st msg) := by
  have hboth : (!(st.peer.version.isSome && st.peer.gotVerack)) = true := by
    rcases hopen with h | h <;> simp [h]
  unfold handle
  rw [if_neg (by simp [hconnected]), if_pos hboth]
  -- a message that is neither completes nothing
  have hother : (∀ m, msg ≠ .version m) → msg ≠ .verack → ∀ msgs height,
      ¬ Completes cfg env st.peer.outgoing (st.peer.version.map VersionCarrier.startHeight)
        st.peer.gotVerack (msg :: msgs) height := by
    intro hversion hverack msgs height hc
    generalize st.peer.version.map VersionCarrier.startHeight = v at hc
    generalize st.peer.gotVerack = g at hc
    cases hc with
    | verack | afterVerack => exact hverack rfl
    | version m | afterVersion m => exact hversion m rfl
  cases msg with
  | version m => exact handleVersion_cases m
  | verack =>
    by_cases hrepeat : st.peer.gotVerack = true
    · simp only [hrepeat, if_true]
      refine .ended _ st.peer.sender true true .stop ?_ (.inr ⟨rfl, rfl⟩)
      rw [hrepeat]
      intro msgs height hc
      generalize st.peer.version.map VersionCarrier.startHeight = v at hc
      cases hc
    · simp only [hrepeat]
      exact .verack (by simpa using hrepeat)
  | _ =>
    exact .ended _ st.peer.sender true true .stop (hother (by simp) (by simp)) (.inr ⟨rfl, rfl⟩)

/-! ### One message -/

variable {log : List Happening} {st : ReadState}

theorem Tracks.version (h : Tracks cfg st.peer log) {m : VersionMessage} {vm : VersionCarrier}
    {sender : List NetworkMessage} (hnone : st.peer.version = none)
    (hm : Accepts cfg env st.peer.outgoing m) (hvm : vm.startHeight = m.startHeight.toUInt32) :
    Tracks cfg { st.peer with version := some vm, sender := sender }
      (log ++ [.version m env.height]) where
  verack := by simp [h.verack]
  noVersion := by simp
  hasVersion := by
    intro c hc
    cases hc
    refine ⟨⟨m, env.height, by simp⟩, ?_⟩
    intro m' height hmem
    have hlast : m' = m ∧ height = env.height := by
      simpa [h.noVersion hnone m' height] using hmem
    obtain ⟨rfl, rfl⟩ := hlast
    exact ⟨hvm, hm.1, hm.2.1, hm.2.2.1, hm.2.2.2.2.1⟩

theorem Tracks.takeVerack (h : Tracks cfg st.peer log) :
    Tracks cfg { st.peer with gotVerack := true } (log ++ [.verack]) where
  verack := by simp
  noVersion hnone m height := by simpa using h.noVersion hnone m height
  hasVersion c hc := by simpa using h.hasVersion c hc

theorem Tracks.of_eq {peer peer' : Peer} (h : Tracks cfg peer log)
    (hversion : peer'.version = peer.version) (hverack : peer'.gotVerack = peer.gotVerack)
    (hout : peer'.outgoing = peer.outgoing) : Tracks cfg peer' log where
  verack := by rw [hverack, h.verack]
  noVersion := by
    rw [hversion]
    exact h.noVersion
  hasVersion := by
    rw [hversion, hout]
    exact h.hasVersion

theorem complete_of_open (h : st.peer.version = none ∨ st.peer.gotVerack = false) :
    complete (st, .next) = (st, .next) := by
  rcases h with h | h <;> simp [complete, h]

theorem complete_of_both {c : VersionCarrier} (hversion : st.peer.version = some c)
    (hverack : st.peer.gotVerack = true) : complete (st, .next) =
      ({ st with peer := { st.peer with connected := true }, handshake := true }, .next) := by
  simp [complete, hversion, hverack]

/-- How the messages of an event leave a peer whose handshake was not complete. -/
inductive LoopCase (cfg : Config) (env : Env) (log : List Happening) (st : ReadState)
    (msgs : List NetworkMessage) : ReadState × Flow → Prop where
  | shaking (st' : ReadState) (flow : Flow) (h : Shaking cfg log st')
      (hno : ∀ height, ¬ Completes cfg env st.peer.outgoing
        (st.peer.version.map VersionCarrier.startHeight) st.peer.gotVerack msgs height)
      (hout : st'.peer.outgoing = st.peer.outgoing) (hban : st'.peer.ban = st.peer.ban)
      (hstop : flow = .stop → st'.disconnect = true) : LoopCase cfg env log st msgs (st', flow)
  | shaken (st' : ReadState) (height : UInt32) (h : Shaken cfg log height st')
      (hc : Completes cfg env st.peer.outgoing
        (st.peer.version.map VersionCarrier.startHeight) st.peer.gotVerack msgs height)
      (hout : st'.peer.outgoing = st.peer.outgoing) (hban : st'.peer.ban = st.peer.ban)
      (hdisconnect : st'.disconnect = st.disconnect) : LoopCase cfg env log st msgs (st', .next)

/-- A message before the others does not change how they leave the peer. -/
theorem LoopCase.of_iff {st₀ : ReadState} {msgs₀ msgs : List NetworkMessage} {r : ReadState × Flow}
    (h : LoopCase cfg env log st msgs r) (hout : st.peer.outgoing = st₀.peer.outgoing)
    (hban : st.peer.ban = st₀.peer.ban) (hdisconnect : st.disconnect = st₀.disconnect)
    (hiff : ∀ height, Completes cfg env st₀.peer.outgoing
        (st₀.peer.version.map VersionCarrier.startHeight) st₀.peer.gotVerack msgs₀ height ↔
      Completes cfg env st₀.peer.outgoing
        (st.peer.version.map VersionCarrier.startHeight) st.peer.gotVerack msgs height) :
    LoopCase cfg env log st₀ msgs₀ r := by
  cases h with
  | shaking st' flow h hno hout' hban' hstop =>
    refine .shaking st' flow h ?_ (hout'.trans hout) (hban'.trans hban) hstop
    intro height hc
    rw [hout] at hno
    exact hno height ((hiff height).mp hc)
  | shaken st' height h hc hout' hban' hdisconnect' =>
    rw [hout] at hc
    exact .shaken st' height h ((hiff height).mpr hc) (hout'.trans hout) (hban'.trans hban)
      (hdisconnect'.trans hdisconnect)

/-- After the handshake all messages are for the listeners. -/
theorem handleAll_of_connected (h : st.peer.connected = true) (msgs : List NetworkMessage) :
    handleAll cfg env st msgs = ({ st with incoming := st.incoming ++ msgs }, .next) := by
  induction msgs generalizing st with
  | nil => simp [handleAll]
  | cons msg msgs ih =>
    have hstep : handle cfg env st msg =
        ({ st with incoming := st.incoming ++ [msg] }, .next) := by
      unfold handle
      rw [if_pos h]
    rw [handleAll, hstep]
    refine (@ih { st with incoming := st.incoming ++ [msg] } h).trans ?_
    simp

/-- The rest of the messages after the handshake. -/
theorem Shaken.handleAll {height : UInt32} (h : Shaken cfg log height st) (env : Env)
    (msgs : List NetworkMessage) :
    ∃ st', P2P.handleAll cfg env st msgs = (st', .next) ∧ Shaken cfg log height st' ∧
      st'.peer = st.peer ∧ st'.disconnect = st.disconnect := by
  rw [handleAll_of_connected h.connected]
  exact ⟨_, rfl, ⟨h.connected, h.handshake, h.gotVerack, h.version, h.tracks, h.order, h.silent⟩,
    rfl, rfl⟩

/-- A version message that is taken. -/
theorem Shaking.version (h : Shaking cfg log st) {m : VersionMessage} {vm : VersionCarrier}
    {sender : List NetworkMessage} (hnone : st.peer.version = none)
    (hm : Accepts cfg env st.peer.outgoing m) (hvm : vm.startHeight = m.startHeight.toUInt32) :
    (st.peer.gotVerack = false ∧ Shaking cfg log { st with
        peer := { st.peer with version := some vm, sender := sender }
        taken := st.taken ++ [.version m env.height] }) ∨
      (st.peer.gotVerack = true ∧ Shaken cfg log m.startHeight.toUInt32 { st with
        peer := { st.peer with version := some vm, sender := sender, connected := true }
        handshake := true
        taken := st.taken ++ [.version m env.height] }) := by
  have htracks := @Tracks.version cfg env (log ++ st.taken) st h.tracks m vm sender hnone hm hvm
  have horder : InOrder cfg st.peer.outgoing (log ++ st.taken ++ [.version m env.height]) :=
    inOrder_concat.mpr ⟨h.order, h.tracks.noVersion hnone⟩
  have hsilent : .connected ∉ log ++ st.taken ++ [.version m env.height] := by
    simpa using h.silent
  rw [List.append_assoc] at htracks horder hsilent
  cases hverack : st.peer.gotVerack with
  | false =>
    exact .inl ⟨rfl, h.connected, h.handshake, h.incoming, .inr hverack, htracks, horder, hsilent⟩
  | true =>
    exact .inr ⟨rfl, rfl, rfl, hverack, ⟨vm, rfl, hvm⟩, htracks.of_eq rfl rfl rfl, horder, hsilent⟩

/-- A verack that is taken. -/
theorem Shaking.verack (h : Shaking cfg log st) (hno : st.peer.gotVerack = false) :
    (st.peer.version = none ∧ Shaking cfg log { st with
        peer := { st.peer with gotVerack := true }
        taken := st.taken ++ [.verack] }) ∨
      ∃ c, st.peer.version = some c ∧ Shaken cfg log c.startHeight { st with
        peer := { st.peer with gotVerack := true, connected := true }
        handshake := true
        taken := st.taken ++ [.verack] } := by
  have htracks := h.tracks.takeVerack
  have hnew : .verack ∉ log ++ st.taken := by
    rw [← h.tracks.verack, hno]
    simp
  have horder : InOrder cfg st.peer.outgoing (log ++ st.taken ++ [.verack]) :=
    inOrder_concat.mpr ⟨h.order, hnew⟩
  have hsilent : .connected ∉ log ++ st.taken ++ [.verack] := by simpa using h.silent
  rw [List.append_assoc] at htracks horder hsilent
  cases hversion : st.peer.version with
  | none =>
    exact .inl ⟨rfl, h.connected, h.handshake, h.incoming, .inl hversion, htracks, horder, hsilent⟩
  | some c =>
    exact .inr ⟨c, rfl, rfl, rfl, rfl, ⟨c, hversion, rfl⟩, htracks.of_eq rfl rfl rfl, horder,
      hsilent⟩

/-- **The messages of an event** complete the handshake exactly if `Completes` says so. -/
theorem Shaking.handleAll (h : Shaking cfg log st) (msgs : List NetworkMessage) :
    LoopCase cfg env log st msgs (P2P.handleAll cfg env st msgs) := by
  induction msgs generalizing st with
  | nil => exact .shaking st .next h (fun _ => not_completes_nil) rfl rfl (by simp)
  | cons msg msgs ih =>
    have hcase := @handle_cases cfg env st h.connected h.open_ msg
    rw [P2P.handleAll]
    generalize handle cfg env st msg = r at hcase
    cases hcase with
    -- a version message, which completes the handshake if the verack was there before
    | version m vm sender hnone hm hvm =>
      rcases @Shaking.version cfg env log st h m vm sender hnone hm hvm with
        ⟨hverack, hst⟩ | ⟨hverack, hst⟩
      · have hiff : ∀ height, Completes cfg env st.peer.outgoing
            (st.peer.version.map VersionCarrier.startHeight) st.peer.gotVerack
            (.version m :: msgs) height ↔ Completes cfg env st.peer.outgoing
            (some vm.startHeight) st.peer.gotVerack msgs height := by
          intro height
          rw [hnone, hverack, hvm]
          refine ⟨fun hc => ?_, fun hc => .afterVersion m hm hc⟩
          cases hc with
          | afterVersion _ _ hc => exact hc
        rw [complete_of_open hst.open_]
        exact (ih hst).of_iff rfl rfl rfl hiff
      · rw [@complete_of_both { st with
          peer := { st.peer with version := some vm, sender := sender }
          taken := st.taken ++ [.version m env.height] } vm rfl hverack]
        obtain ⟨st', hall, hst', hpeer, hdisconnect⟩ := hst.handleAll env msgs
        dsimp only
        rw [hall]
        refine .shaken st' _ hst' ?_ (by rw [hpeer]) (by rw [hpeer]) hdisconnect
        rw [hnone, hverack]
        exact .version m hm msgs
    | verack hno =>
      -- likewise a verack
      rcases h.verack hno with ⟨hnone, hst⟩ | ⟨c, hsome, hst⟩
      · have hiff : ∀ height, Completes cfg env st.peer.outgoing
            (st.peer.version.map VersionCarrier.startHeight) st.peer.gotVerack
            (.verack :: msgs) height ↔ Completes cfg env st.peer.outgoing
            (st.peer.version.map VersionCarrier.startHeight) true msgs height := by
          intro height
          rw [hnone, hno]
          refine ⟨fun hc => ?_, .afterVerack⟩
          cases hc with
          | afterVerack hc => exact hc
        rw [complete_of_open hst.open_]
        exact (ih hst).of_iff rfl rfl rfl hiff
      · rw [@complete_of_both { st with
          peer := { st.peer with gotVerack := true }
          taken := st.taken ++ [.verack] } c hsome rfl]
        obtain ⟨st', hall, hst', hpeer, hdisconnect⟩ := hst.handleAll env msgs
        dsimp only
        rw [hall]
        refine .shaken st' _ hst' ?_ (by rw [hpeer]) (by rw [hpeer]) hdisconnect
        rw [hsome, hno]
        exact .verack c.startHeight msgs
    | ended _ sender disconnect ban flow hno hflow =>
      -- the connection ends, and nothing is completed
      have hst : Shaking cfg log { st with
          peer := { st.peer with sender := sender }, disconnect := disconnect, ban := ban } :=
        ⟨h.connected, h.handshake, h.incoming, h.open_, h.tracks.of_eq rfl rfl rfl, h.order,
          h.silent⟩
      rcases hflow with rfl | ⟨rfl, rfl⟩
      · exact .shaking _ .fail hst (hno msgs) rfl rfl (fun hstop => nomatch hstop)
      · exact .shaking _ .stop hst (hno msgs) rfl rfl (fun _ => rfl)

end Tracks

/-! ## One read -/

section Reads

variable {cfg : Config} {env : Env} {outgoing : Bool} {sha256d : Bytes → Sha256dHash}

/-- The loop over the buffer is the loop over the messages that are decoded from it. -/
theorem readLoop_eq (fuel : Nat) (src : Buffer) (st : ReadState) :
    ∃ src', readLoop cfg env sha256d fuel src st =
      (src', (handleAll cfg env st
          ((decodeAll sha256d fuel src).2.1.map RawNetworkMessage.payload)).1,
        match (handleAll cfg env st
          ((decodeAll sha256d fuel src).2.1.map RawNetworkMessage.payload)).2 with
        | .next => (decodeAll sha256d fuel src).2.2
        | .stop => .ok ()
        | .fail => .err (.kind .other)) := by
  induction fuel generalizing src st with
  | zero => exact ⟨src, rfl⟩
  | succ fuel ih =>
    rw [readLoop, decodeAll]
    rcases decode sha256d src with ⟨src', (_ | msg) | e | p⟩
    · exact ⟨src', rfl⟩
    · dsimp only
      rw [List.map_cons, handleAll]
      rcases handle cfg env st msg.payload with ⟨st', _ | _ | _⟩
      · exact ih src' st'
      · exact ⟨src', rfl⟩
      · exact ⟨src', rfl⟩
    · exact ⟨src', rfl⟩
    · exact ⟨src', rfl⟩

/-- A height that is not behind as an unsigned number is not behind unless it is negative. -/
theorem height_le_iff {height : UInt32} {start : Int32} (hle : height ≤ start.toUInt32) :
    (height.toNat : Int) ≤ start.toInt ↔ start.toUInt32 < 0x80000000 := by
  have hint : start.toInt = start.toUInt32.toBitVec.toInt := rfl
  have hnat : start.toUInt32.toBitVec.toNat = start.toUInt32.toNat := rfl
  have hbound : (0x80000000 : UInt32).toNat = 2147483648 := rfl
  have hlt := start.toUInt32.toNat_lt
  rw [UInt32.le_iff_toNat_le] at hle
  rw [hint, BitVec.toInt_eq_toNat_cond, UInt32.lt_iff_toNat_lt, hnat, hbound]
  split_ifs <;> omega

/-- The version that a peer has is acceptable unless its height is negative. -/
theorem TakenAs.acceptable_iff {c : VersionCarrier} {m : VersionMessage} {height : UInt32}
    (h : TakenAs cfg outgoing c m height) :
    Acceptable cfg outgoing m height ↔ (outgoing = true → c.startHeight < 0x80000000) := by
  obtain ⟨hstart, hnonce, hversion, hservices, hheight⟩ := h
  rw [hstart]
  constructor
  · intro hacc hout
    exact (height_le_iff (hheight hout)).mp (hacc.2.2.2 hout)
  · intro hneg
    exact ⟨hnonce, hversion, hservices, fun hout => (height_le_iff (hheight hout)).mpr (hneg hout)⟩

variable (cfg outgoing) in
/-- A link in order, whose peer is known to the listeners or in its handshake. -/
structure Inv (s : Link) : Prop where
  order : InOrder cfg outgoing s.log
  peer : ∀ peer src, s.peer = some (peer, src) → peer.outgoing = outgoing ∧
    (peer.connected = true ∧ .connected ∈ s.log ∨
      peer.connected = false ∧ (peer.version = none ∨ peer.gotVerack = false) ∧
        Tracks cfg peer s.log ∧ .connected ∉ s.log)

variable {s : Link}

theorem Inv.handshakeOk (h : Inv cfg outgoing s) : HandshakeOk cfg outgoing s where
  order := h.order
  connected := by
    intro peer src hpeer hconnected
    rcases (h.peer peer src hpeer).2 with ⟨_, hmem⟩ | ⟨hno, _⟩
    · exact hmem
    · rw [hconnected] at hno
      cases hno

theorem inv_new : Inv cfg outgoing (Link.new outgoing) where
  order := inOrder_nil
  peer := by
    intro peer src hpeer
    cases hpeer
    refine ⟨rfl, .inr ⟨rfl, .inl rfl, ⟨?_, ?_, ?_⟩, ?_⟩⟩ <;> simp [Peer.new, Link.new]

theorem inv_disconnect (h : InOrder cfg outgoing s.log) (banned : Bool) :
    Inv cfg outgoing (s.disconnect banned) where
  order := inOrder_concat.mpr ⟨h, trivial⟩
  peer _ _ hpeer := nomatch hpeer

theorem Inv.ban (h : Inv cfg outgoing s) (increment : Nat) :
    Inv cfg outgoing (s.ban increment) := by
  unfold Link.ban
  rcases hpeer : s.peer with _ | ⟨peer, src⟩
  · exact h
  · dsimp only
    split_ifs with hlimit
    · exact inv_disconnect h.order true
    · refine ⟨h.order, ?_⟩
      intro peer' src' hpeer'
      cases hpeer'
      obtain ⟨hout, hstage⟩ := h.peer peer src hpeer
      refine ⟨hout, hstage.imp id ?_⟩
      rintro ⟨hconnected, hopen, htracks, hsilent⟩
      exact ⟨hconnected, hopen, htracks.of_eq rfl rfl rfl, hsilent⟩

/-- A read that leaves the link in order, whatever comes of its last decode. -/
theorem inv_of_read {peer : Peer} {src : Buffer} {taken : List Happening} {dead : Bool}
    (horder : InOrder cfg outgoing (s.log ++ taken)) (hout : peer.outgoing = outgoing)
    (hstage : peer.connected = true ∧ .connected ∈ s.log ++ taken ∨
      peer.connected = false ∧ (peer.version = none ∨ peer.gotVerack = false) ∧
        Tracks cfg peer (s.log ++ taken) ∧ .connected ∉ s.log ++ taken) :
    Inv cfg outgoing { s with peer := some (peer, src), log := s.log ++ taken, dead := dead } where
  order := horder
  peer := by
    intro peer' src' hpeer
    cases hpeer
    exact ⟨hout, hstage⟩

/-- The messages of a peer that the listeners know. -/
theorem Inv.tell (h : Inv cfg outgoing s) {msgs : List NetworkMessage}
    (hmsgs : msgs = [] ∨ .connected ∈ s.log) :
    Inv cfg outgoing { s with log := s.log ++ msgs.map .incoming } := by
  rcases hmsgs with rfl | hmem
  · simpa using h
  · refine ⟨h.order.append_incoming hmem msgs, ?_⟩
    intro peer src hpeer
    obtain ⟨hout, hstage⟩ := h.peer peer src hpeer
    refine ⟨hout, .inl ?_⟩
    rcases hstage with ⟨hconnected, _⟩ | ⟨_, _, _, hsilent⟩
    · exact ⟨hconnected, List.mem_append_left _ hmem⟩
    · exact absurd hmem hsilent

/-- An event that does not complete the handshake. -/
theorem inv_endRead {src : Buffer} {st : ReadState} {ended : Outcome IoError Unit}
    (horder : InOrder cfg outgoing (s.log ++ st.taken)) (hout : st.peer.outgoing = outgoing)
    (hstage : st.peer.connected = true ∧ .connected ∈ s.log ++ st.taken ∨
      st.peer.connected = false ∧ (st.peer.version = none ∨ st.peer.gotVerack = false) ∧
        Tracks cfg st.peer (s.log ++ st.taken) ∧ .connected ∉ s.log ++ st.taken)
    (hhandshake : st.handshake = false)
    (hincoming : st.incoming = [] ∨ .connected ∈ s.log ++ st.taken) :
    Inv cfg outgoing (endRead s (src, st, ended)) := by
  have hread := fun dead => @inv_of_read cfg outgoing s st.peer src st.taken dead horder hout hstage
  rcases ended with u | e | p
  · simp only [endRead, hhandshake, Bool.false_eq_true, if_false, List.append_nil]
    split_ifs with hdisconnect
    · exact inv_disconnect horder st.ban
    · exact (hread s.dead).tell hincoming
  · exact (hread s.dead).ban 10
  · exact hread true

/-- The listeners may be told of the peer unless its height is negative. -/
theorem Shaken.allowed_iff {log : List Happening} {st : ReadState} {height : UInt32}
    (h : Shaken cfg log height st) (hout : st.peer.outgoing = outgoing) :
    Allowed cfg outgoing (log ++ st.taken) .connected ↔
      (outgoing = true → height < 0x80000000) := by
  obtain ⟨c, hc, rfl⟩ := h.version
  obtain ⟨⟨m, at_, hm⟩, hall⟩ := h.tracks.hasVersion c hc
  rw [hout] at hall
  constructor
  · rintro ⟨_, _, m', at', hm', hacc⟩
    exact (hall m' at' hm').acceptable_iff.mp hacc
  · intro hneg
    exact ⟨h.silent, h.tracks.verack.mp h.gotVerack, m, at_, hm,
      (hall m at_ hm).acceptable_iff.mpr hneg⟩

/-- An event that completes the handshake leaves the link in order exactly if its end meets
the condition. -/
theorem endRead_shaken {src : Buffer} {st : ReadState} {ended : Outcome IoError Unit}
    {height : UInt32} {bytes : Bytes} (h : Shaken cfg s.log height st)
    (hout : st.peer.outgoing = outgoing) (hdisconnect : st.disconnect = bytes.isEmpty) :
    ((match ended with
      | .ok () => bytes ≠ [] → outgoing = true → height < 0x80000000
      | .err _ => Link.banLimit ≤ st.peer.ban + 10
      | .panic _ => False) → Inv cfg outgoing (endRead s (src, st, ended))) ∧
    (HandshakeOk cfg outgoing (endRead s (src, st, ended)) →
      match ended with
      | .ok () => bytes ≠ [] → outgoing = true → height < 0x80000000
      | .err _ => Link.banLimit ≤ st.peer.ban + 10
      | .panic _ => False) := by
  have horder := h.order
  rw [hout] at horder
  rcases ended with u | e | p
  · simp only [endRead, h.handshake, if_true, hdisconnect, List.isEmpty_iff]
    by_cases hnil : bytes = []
    · rw [if_pos hnil]
      -- an empty read ends the connection
      exact ⟨fun _ => inv_disconnect horder st.ban, fun _ hne => absurd hnil hne⟩
    · rw [if_neg hnil]
      -- the listeners are told
      constructor
      · intro hok
        have hallowed := (h.allowed_iff hout).mpr (hok hnil)
        have htold : Inv cfg outgoing { s with
            peer := some (st.peer, src), log := s.log ++ st.taken ++ [.connected] } := by
          refine ⟨inOrder_concat.mpr ⟨horder, hallowed⟩, ?_⟩
          intro peer' src' hpeer
          cases hpeer
          exact ⟨hout, .inl ⟨h.connected, by simp⟩⟩
        exact htold.tell (.inr (by simp))
      · intro hok _
        exact (h.allowed_iff hout).mp (hok.order _ _ _ (List.append_assoc _ _ _))
  · -- the error leaves the peer connected, unless it is banned
    unfold endRead Link.ban
    dsimp only
    by_cases hlimit : Link.banLimit ≤ st.peer.ban + 10
    · rw [if_pos hlimit]
      exact ⟨fun _ => inv_disconnect horder true, fun _ => hlimit⟩
    · rw [if_neg hlimit]
      refine ⟨fun hok => absurd hok hlimit, fun hok => ?_⟩
      exact absurd (hok.connected _ _ rfl h.connected) h.silent
  · exact ⟨False.elim, fun hok => h.silent (hok.connected _ _ rfl h.connected)⟩

/-- A read leaves the link in order exactly if it meets the condition. -/
theorem Inv.readSide (h : Inv cfg outgoing s) {peer : Peer} {src : Buffer}
    (hpeer : s.peer = some (peer, src)) (bytes : Bytes) :
    (ReadOk cfg env sha256d peer src bytes →
      Inv cfg outgoing (readSide cfg sha256d s peer src bytes env)) ∧
    (HandshakeOk cfg outgoing (readSide cfg sha256d s peer src bytes env) →
      ReadOk cfg env sha256d peer src bytes) := by
  obtain ⟨hout, hstage⟩ := h.peer peer src hpeer
  obtain ⟨src', hloop⟩ := @readLoop_eq cfg env sha256d ((src.write bytes).len + 1)
    (src.write bytes) (.start peer bytes)
  have hstart : s.log ++ (ReadState.start peer bytes).taken = s.log := List.append_nil _
  unfold P2P.readSide ReadOk receive
  dsimp only
  rw [hloop]
  generalize decodeAll sha256d ((src.write bytes).len + 1) (src.write bytes) = decoded
  obtain ⟨_, frames, ended⟩ := decoded
  dsimp only
  generalize frames.map RawNetworkMessage.payload = msgs
  rcases hstage with ⟨hconnected, hmem⟩ | ⟨hconnected, hopen, htracks, hsilent⟩
  · -- the handshake is complete: the condition asks nothing, and the log only grows
    rw [handleAll_of_connected
      (show (ReadState.start peer bytes).peer.connected = true from hconnected)]
    refine ⟨fun _ => inv_endRead (by rw [hstart]; exact h.order) hout
      (.inl ⟨hconnected, by rw [hstart]; exact hmem⟩) rfl (.inr (by rw [hstart]; exact hmem)), ?_⟩
    intro _ height hno
    rw [hconnected] at hno
    cases hno
  · -- the handshake goes on with the messages of this read
    have hshaking : Shaking cfg s.log (.start peer bytes) :=
      ⟨hconnected, rfl, rfl, hopen, by rw [hstart]; exact htracks,
        by rw [hstart, show (ReadState.start peer bytes).peer.outgoing = outgoing from hout];
           exact h.order,
        by rw [hstart]; exact hsilent⟩
    have hcase := @Shaking.handleAll cfg env s.log _ hshaking msgs
    generalize handleAll cfg env (.start peer bytes) msgs = r at hcase
    cases hcase with
    | shaking st' flow hst' hno hout' _ _ =>
      have hout'' : st'.peer.outgoing = outgoing := hout'.trans hout
      refine ⟨fun _ => inv_endRead (hout'' ▸ hst'.order) hout''
        (.inr ⟨hst'.connected, hst'.open_, hst'.tracks, hst'.silent⟩) hst'.handshake
        (.inl hst'.incoming), ?_⟩
      intro _ height _ hc
      exact absurd hc (hno height)
    | shaken st' height hst' hc hout' hban hdisconnect =>
      have hend := @endRead_shaken cfg outgoing s src' st' ended height bytes hst'
        (hout'.trans hout) hdisconnect
      rw [show st'.peer.ban = peer.ban from hban] at hend
      rw [hout]
      rw [show (ReadState.start peer bytes).peer.outgoing = outgoing from hout] at hc
      refine ⟨fun hok => hend.1 (hok height hconnected hc), ?_⟩
      intro hok height' _ hc'
      have hsame : height' = height := hc'.unique hc
      rw [hsame]
      exact hend.2 hok

/-- A step leaves the link in order exactly if it meets the condition. -/
theorem Inv.step (h : Inv cfg outgoing s) (a : Action) :
    (a.Ok cfg sha256d s → Inv cfg outgoing (step cfg sha256d s a)) ∧
    (HandshakeOk cfg outgoing (step cfg sha256d s a) → a.Ok cfg sha256d s) := by
  cases a with
  | left =>
    refine ⟨fun _ => ?_, fun _ => trivial⟩
    unfold P2P.step
    split_ifs
    · exact h
    · exact inv_disconnect h.order false
  | disconnect => exact ⟨fun _ => inv_disconnect h.order false, fun _ => trivial⟩
  | ban increment =>
    refine ⟨fun _ => ?_, fun _ => trivial⟩
    unfold P2P.step
    split_ifs
    · exact h
    · exact h.ban increment
  | ready writeOk read =>
    by_cases hdead : s.dead = true
    · have hstep : P2P.step cfg sha256d s (.ready writeOk read) = s := by simp [P2P.step, hdead]
      rw [hstep]
      refine ⟨fun _ => h, fun _ => ?_⟩
      rcases writeOk with _ | _ <;> rcases read with _ | ⟨_ | bytes, env⟩ <;>
        simp [Action.Ok, hdead]
    rcases hpeer : s.peer with _ | ⟨peer, src⟩
    · have hstep : P2P.step cfg sha256d s (.ready writeOk read) = s := by
        simp [P2P.step, hdead, hpeer]
      rw [hstep]
      refine ⟨fun _ => h, fun _ => ?_⟩
      rcases writeOk with _ | _ <;> rcases read with _ | ⟨_ | bytes, env⟩ <;>
        simp [Action.Ok, hpeer]
    rcases writeOk with _ | _
    · -- the version could not be written, which is a reason for a ban
      refine ⟨fun _ => ?_, fun _ => trivial⟩
      simpa [P2P.step, hdead, hpeer] using h.ban 10
    rcases read with _ | ⟨_ | bytes, env⟩
    · refine ⟨fun _ => ?_, fun _ => trivial⟩
      simpa [P2P.step, hdead, hpeer] using h
    · refine ⟨fun _ => ?_, fun _ => trivial⟩
      -- the socket is closed
      simpa [P2P.step, hdead, hpeer] using inv_disconnect h.order false
    · have hread := @Inv.readSide cfg env outgoing sha256d s h peer src hpeer bytes
      have hok : Action.Ok cfg sha256d s (.ready true (some ⟨some bytes, env⟩)) ↔
          ReadOk cfg env sha256d peer src bytes := by
        simp [Action.Ok, hdead, hpeer]
      rw [hok]
      simpa [P2P.step, hdead, hpeer] using hread

end Reads

/-! ## Runs -/

/-- **The handshake is in order in every state of a run exactly if every read that completes
it is decoded to its end, or ends in a ban, and no outgoing peer is taken with a negative
height.** -/
theorem handshakeOk_run_iff (cfg : Config) (sha256d : Bytes → Sha256dHash) (outgoing : Bool)
    (as : List Action) :
    (∀ pre, pre <+: as →
        HandshakeOk cfg outgoing (run (step cfg sha256d) (Link.new outgoing) pre)) ↔
      Guarded (step cfg sha256d) (Action.Ok cfg sha256d) (Link.new outgoing) as := by
  have hstep : ∀ s a, Inv cfg outgoing s → a.Ok cfg sha256d s →
      Inv cfg outgoing (step cfg sha256d s a) := fun s a hs => (hs.step a).1
  have hbad : ∀ s a, Inv cfg outgoing s → ¬ a.Ok cfg sha256d s →
      ¬ HandshakeOk cfg outgoing (step cfg sha256d s a) :=
    fun s a hs hno hok => hno ((hs.step a).2 hok)
  exact forall_prefix_iff_guarded (fun s hs => hs.handshakeOk) hstep hbad inv_new as

/-! ## An error after the verack -/

/-- The version message of an outgoing peer. -/
def hello : VersionMessage where
  version := 70015
  services := 1
  timestamp := 1600000000
  receiver := ⟨1, List.replicate 8 0, 8333⟩
  sender := ⟨1, List.replicate 8 0, 8333⟩
  nonce := 7
  userAgent := []
  startHeight := 650000
  relay := true

/-- The double hash of the payloads below. -/
def hashOfHello (data : Bytes) : Sha256dHash :=
  if data = hello.consensusEncode then
    0xe157198f023a1d1ff92af98d50adb42a956bc28dae0701501547f34a9760c12d#256
  else hashOfTwo data

/-- The version message, the verack and a `ping` with the checksum of another payload come in
one read, and a `ping` in the next. -/
def helloThenError : List Action :=
  let magic : UInt32 := 0xD9B4BEF9
  let frame (msg : NetworkMessage) := RawNetworkMessage.serialize hashOfHello ⟨magic, msg⟩
  let env : Env := ⟨0, true, true, true⟩
  [.ready true (some ⟨some (frame (.version hello) ++ frame .verack ++
      (leBytes 4 magic.toNat ++ encodeCommand "ping" ++ leBytes 4 8 ++
        sha2Checksum hashOfHello [] ++ leBytes 8 7)), env⟩),
    .ready true (some ⟨some (frame (.ping 7)), env⟩)]

def spvConfig : Config where
  nonce := 1
  maxProtocolVersion := 70001
  neededServices := 1
  version version := .version { hello with version := version, nonce := 1, startHeight := 0 }

/-- The peer is connected after the first read, and its messages go to listeners that were
never told of it. -/
theorem not_handshakeOk_helloThenError :
    ¬ (∀ pre, pre <+: helloThenError → HandshakeOk spvConfig true
        (run (step spvConfig hashOfHello) (Link.new true) pre)) ∧
      (run (step spvConfig hashOfHello) (Link.new true) helloThenError).log =
        [.version hello 0, .verack, .incoming (.ping 7)] := by
  have hlog : (run (step spvConfig hashOfHello) (Link.new true) helloThenError).log =
      [.version hello 0, .verack, .incoming (.ping 7)] := by decide +kernel
  refine ⟨fun h => ?_, hlog⟩
  have horder := (h helloThenError (List.prefix_refl _)).order
  rw [hlog] at horder
  have hallowed := horder [.version hello 0, .verack] (.incoming (.ping 7)) [] rfl
  simp [Allowed] at hallowed

end Cashbox.Btc.P2P
