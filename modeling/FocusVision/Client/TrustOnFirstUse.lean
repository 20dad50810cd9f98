import FocusVision.Client.CertificatePinning

/-!
# Trust on first use

As long as an existing store can be read whenever it is needed, a pinned fingerprint
stays pinned until it is cleared, only its server passes the check and is sent the PIN,
and it comes from a server that has accepted the PIN.  A store that cannot be read is
taken for none: then any server passes, and is pinned in place of the other.
-/

namespace FocusVision
namespace Client

/-! ### Reading back what was written -/

/-- Bytes above the blank: no white space and no line end. -/
def Plain (s : List UInt8) : Prop :=
  ∀ c ∈ s, 0x20 < c

theorem isSpace_of_plain
    {c : UInt8} (h : 0x20 < c) :
    isSpace c = false := by
  have hlt := UInt8.lt_iff_toNat_lt.mp h
  have hblank : (0x20 : UInt8).toNat = 32 := rfl
  have hne : c ≠ 0x20 := fun heq => absurd h (heq ▸ UInt8.lt_irrefl _)
  have hhigh : ¬c ≤ 0x0D := by
    intro hle
    have hle' := UInt8.le_iff_toNat_le.mp hle
    have hcr : (0x0D : UInt8).toNat = 13 := rfl
    omega
  simp [isSpace, hne, hhigh]

theorem dropWhile_plain
    {s : List UInt8} (h : Plain s) :
    s.dropWhile isSpace = s := by
  cases s with
  | nil => rfl
  | cons c s =>
      rw [List.dropWhile_cons_of_neg]
      rw [isSpace_of_plain (h c List.mem_cons_self)]
      exact Bool.false_ne_true

theorem trim_plain
    {s : List UInt8} (h : Plain s) :
    trim s = s := by
  have hreverse : Plain s.reverse := fun c hc => h c (List.mem_reverse.mp hc)
  unfold trim
  rw [dropWhile_plain h, dropWhile_plain hreverse, List.reverse_reverse]

theorem loadPin_plain
    {s : List UInt8} (h : Plain s) (rest : List UInt8) :
    loadPin s = s ∧ loadPin (s ++ 0x0A :: rest) = s := by
  have hline : ∀ c ∈ s, (c != 0x0A) = true := by
    intro c hc
    have hne : c ≠ 0x0A := fun heq => absurd (h c hc) (by rw [heq]; decide)
    simpa using hne
  have hwhole : s.takeWhile (· != 0x0A) = s := by
    have happend := @List.takeWhile_append_of_pos _ (· != 0x0A) s [] hline
    rwa [List.append_nil, List.takeWhile_nil, List.append_nil] at happend
  unfold loadPin
  rw [List.takeWhile_append_of_pos hline, List.takeWhile_cons_of_neg (by decide),
    List.append_nil, hwhole, trim_plain h]
  exact ⟨rfl, rfl⟩

/-- What reaches the store before an error is read back as a part of the fingerprint. -/
theorem loadPin_take
    {fingerprint : List UInt8} (h : Plain fingerprint) (n : Nat) :
    loadPin ((pinLine fingerprint).take n) = fingerprint.take n := by
  have htake : Plain (fingerprint.take n) := fun c hc => h c (List.mem_of_mem_take hc)
  unfold pinLine
  rw [List.take_append]
  rcases Nat.lt_or_ge fingerprint.length n with hlt | hle
  · obtain ⟨k, hk⟩ : ∃ k, n - fingerprint.length = k + 1 :=
      ⟨n - fingerprint.length - 1, by omega⟩
    rw [hk, List.take_succ_cons, List.take_nil]
    exact (loadPin_plain htake []).2
  · rw [Nat.sub_eq_zero_of_le hle, List.take_zero, List.append_nil]
    exact (loadPin_plain htake []).1

theorem loadPin_pinLine
    {fingerprint : List UInt8} (h : Plain fingerprint) :
    loadPin (pinLine fingerprint) = fingerprint :=
  (loadPin_plain h []).2

theorem hexDigit_plain
    (n : UInt8) :
    0x20 < hexDigit (n &&& 0xF) := by
  have hlt : (n &&& 0xF).toNat < 16 := by
    rw [UInt8.toNat_and]
    exact Nat.and_lt_two_pow _ (show (0xF : UInt8).toNat < 2 ^ 4 by decide)
  have hall : ∀ k : Fin 16, 0x20 < hexDigit (UInt8.ofNat k) := by decide
  have hn := hall ⟨_, hlt⟩
  rwa [UInt8.ofNat_toNat] at hn

theorem sha256Hex_plain
    (hash : Vector UInt8 32) :
    Plain (sha256Hex hash) := by
  intro c hc
  obtain ⟨b, -, hb⟩ := List.mem_flatMap.mp hc
  simp only [List.mem_cons, List.not_mem_nil, or_false] at hb
  rcases hb with rfl | rfl
  · exact hexDigit_plain _
  · exact hexDigit_plain _

theorem length_sha256Hex
    (hash : Vector UInt8 32) :
    (sha256Hex hash).length = FINGERPRINT_LEN := by
  unfold sha256Hex
  rw [List.length_flatMap]
  simp [FINGERPRINT_LEN]

theorem foldl_diff_eq_zero
    (pairs : List (UInt8 × UInt8)) (start : UInt8) :
    pairs.foldl (fun diff (p, a) => diff ||| (p ^^^ a)) start = 0 ↔
      start = 0 ∧ ∀ pair ∈ pairs, pair.1 = pair.2 := by
  induction pairs generalizing start with
  | nil => simp
  | cons pair pairs ih =>
      rw [List.foldl_cons, ih, UInt8.or_eq_zero_iff, UInt8.xor_eq_zero_iff]
      simp [and_assoc]

/-- Only the same fingerprint passes the comparison. -/
theorem sameFingerprint_iff
    (pinned actual : List UInt8) :
    sameFingerprint pinned actual = true ↔ pinned = actual := by
  unfold sameFingerprint
  rw [Bool.and_eq_true, beq_iff_eq, beq_iff_eq, foldl_diff_eq_zero]
  refine ⟨fun ⟨hlength, _, hall⟩ => ?_, fun h => ?_⟩
  · refine List.ext_getElem hlength fun i hi hi' => ?_
    have hzip : i < (pinned.zip actual).length := by
      rw [List.length_zip]
      omega
    have hsame := hall _ (List.getElem_mem hzip)
    rwa [List.getElem_zip] at hsame
  · subst h
    refine ⟨rfl, rfl, fun pair hpair => ?_⟩
    obtain ⟨i, hi, rfl⟩ := List.getElem_of_mem hpair
    simp

namespace PinningClient

/-! ### What the client and the store hold -/

/-- The store holds a fingerprint. -/
def Holds (s : PinningClient) (fingerprint : List UInt8) : Prop :=
  ∃ content, s.store = some content ∧ loadPin content = fingerprint

/-- The invariant of the runs that can read their store. -/
structure Trusted (s : PinningClient) : Prop where
  /-- The pinned fingerprint is a whole one, stored, and loaded if anything is. -/
  pinLength : ∀ f, s.pin = some f → f.length = FINGERPRINT_LEN
  pinStored : ∀ f, s.pin = some f → s.Holds f
  pinLoaded : ∀ f, s.pin = some f → s.m_pinnedFingerprint = [] ∨ s.m_pinnedFingerprint = f
  loaded : s.m_pinnedFingerprint ≠ [] → s.Holds s.m_pinnedFingerprint
  loadedPin : s.m_pinnedFingerprint.length = FINGERPRINT_LEN →
    s.pin = some s.m_pinnedFingerprint
  /-- A server that is to be pinned is the first one. -/
  pending : s.m_peerNeedsPinning = true → s.pin = none ∧ s.m_pinnedFingerprint = []
  /-- The connection is to the pinned server, or none is pinned. -/
  peer : s.m_tlsEstablished = true → ∀ f, s.pin = some f → s.m_peerFingerprint = f
  peerShape : s.m_tlsEstablished = true →
    Plain s.m_peerFingerprint ∧ s.m_peerFingerprint.length = FINGERPRINT_LEN
  /-- What is stored comes from a server that has accepted the PIN. -/
  stored : ∀ content, s.store = some content →
    loadPin content = [] ∨ ∃ f ∈ s.accepted, loadPin content <+: f
  acceptedLength : ∀ f ∈ s.accepted, f.length = FINGERPRINT_LEN

/-- The pinned fingerprint is one of a server that has accepted the PIN. -/
theorem Trusted.pin_accepted
    {s : PinningClient} (h : s.Trusted) {f : List UInt8} (hpin : s.pin = some f) :
    f ∈ s.accepted := by
  obtain ⟨content, hstore, rfl⟩ := h.pinStored f hpin
  have hlength := h.pinLength _ hpin
  rcases h.stored content hstore with hnil | ⟨g, hg, hprefix⟩
  · rw [hnil] at hlength
    exact nomatch hlength
  · have hsame := hprefix.eq_of_length (hlength.trans (h.acceptedLength g hg).symm)
    rw [hsame]
    exact hg

theorem pin_ne_nil
    {s : PinningClient} (h : s.Trusted) {f : List UInt8} (hpin : s.pin = some f) :
    f ≠ [] := by
  rintro rfl
  exact nomatch h.pinLength _ hpin

theorem Trusted.disconnect
    {s : PinningClient} (h : s.Trusted) :
    s.disconnect.Trusted :=
  { h with
    pending := fun hneeds => nomatch hneeds
    peer := fun htls => nomatch htls
    peerShape := fun htls => nomatch htls }

theorem Trusted.restart
    {s : PinningClient} (h : s.Trusted) :
    s.restart.Trusted :=
  { h with
    pinLoaded := fun _ _ => Or.inl rfl
    loaded := fun hne => absurd rfl hne
    loadedPin := fun hlength => nomatch hlength
    pending := fun hneeds => nomatch hneeds
    peer := fun htls => nomatch htls
    peerShape := fun htls => nomatch htls }

theorem Trusted.clearPinnedFingerprint
    {s : PinningClient} (h : s.Trusted) (removed : Bool) :
    (s.clearPinnedFingerprint removed).Trusted where
  pinLength := fun _ hpin => nomatch hpin
  pinStored := fun _ hpin => nomatch hpin
  pinLoaded := fun _ hpin => nomatch hpin
  loaded := fun hne => absurd rfl hne
  loadedPin := fun hlength => nomatch hlength
  pending := fun _ => ⟨rfl, rfl⟩
  peer := fun _ _ hpin => nomatch hpin
  peerShape := h.peerShape
  stored := fun content hstore => by
    refine h.stored content ?_
    simp only [PinningClient.clearPinnedFingerprint] at hstore
    split at hstore
    · exact nomatch hstore
    · exact hstore
  acceptedLength := h.acceptedLength

/-! ### The check of the certificate -/

/-- The store can be read if it is needed. -/
def StoreReads (s : PinningClient) (storeReads : Bool) : Prop :=
  s.m_pinnedFingerprint = [] → s.store ≠ none → storeReads = true

theorem loadStore_of_loaded
    {s : PinningClient} (h : s.m_pinnedFingerprint ≠ []) (storeReads : Bool) :
    s.loadStore storeReads = s := by
  unfold loadStore
  split
  · exact absurd ‹s.m_pinnedFingerprint = []› h
  · rfl

theorem loadStore_of_no_store
    {s : PinningClient} (h : s.store = none) (storeReads : Bool) :
    s.loadStore storeReads = s := by
  unfold loadStore
  split
  · exact nomatch h.symm.trans ‹s.store = some _›
  · rfl

theorem loadStore_of_store
    {s : PinningClient} (hloaded : s.m_pinnedFingerprint = []) {content : List UInt8}
    (hstore : s.store = some content) :
    s.loadStore true =
      { s with
        m_pinnedFingerprint := loadPin content
        pin := if (loadPin content).length = FINGERPRINT_LEN then some (loadPin content)
          else s.pin } := by
  obtain ⟨pathSet, store, pinned, peer, needs, tls, pin, accepted⟩ := s
  dsimp only at hloaded hstore
  subst hloaded hstore
  rfl

/-- Loading looks at the store only. -/
theorem loadStore_tls
    (s : PinningClient) (storeReads : Bool) :
    PinningClient.loadStore { s with m_tlsEstablished := true } storeReads =
      { s.loadStore storeReads with m_tlsEstablished := true } := by
  obtain ⟨pathSet, store, pinned, peer, needs, tls, pin, accepted⟩ := s
  cases pinned with
  | cons c rest => rfl
  | nil =>
      cases store with
      | none => rfl
      | some content => cases storeReads <;> rfl

/-- What loading leaves, when the store can be read if it is needed. -/
structure Loads (s t : PinningClient) : Prop where
  trusted : t.Trusted
  pin : ∀ f, s.pin = some f → t.pin = some f
  /-- The pinned fingerprint is loaded. -/
  loaded : ∀ f, t.pin = some f → t.m_pinnedFingerprint = f
  needs : t.m_peerNeedsPinning = s.m_peerNeedsPinning
  tls : t.m_tlsEstablished = s.m_tlsEstablished

theorem Trusted.loadStore
    {s : PinningClient} (h : s.Trusted) (hneeds : s.m_peerNeedsPinning = false)
    (htls : s.m_tlsEstablished = false) {storeReads : Bool}
    (hreads : s.StoreReads storeReads) :
    Loads s (s.loadStore storeReads) := by
  by_cases hloaded : s.m_pinnedFingerprint = []
  · cases hstore : s.store with
    | none =>
        rw [loadStore_of_no_store hstore]
        refine ⟨h, fun _ hpin => hpin, fun f hpin => ?_, rfl, rfl⟩
        obtain ⟨content, hcontent, -⟩ := h.pinStored f hpin
        exact nomatch hstore.symm.trans hcontent
    | some content =>
        obtain rfl : storeReads = true := hreads hloaded (by rw [hstore]; exact nofun)
        rw [loadStore_of_store hloaded hstore]
        have hpinned : ∀ f, s.pin = some f → loadPin content = f := by
          intro f hpin
          obtain ⟨content', hcontent, hload⟩ := h.pinStored f hpin
          obtain rfl : content = content' := Option.some.inj (hstore.symm.trans hcontent)
          exact hload
        -- a part of a fingerprint is loaded, but it is not a pin
        have hpin : ∀ f, (if (loadPin content).length = FINGERPRINT_LEN then
            some (loadPin content) else s.pin) = some f →
            (loadPin content).length = FINGERPRINT_LEN ∧ loadPin content = f := by
          intro f hf
          split at hf
          · exact ⟨‹_›, Option.some.inj hf⟩
          · exact absurd (hpinned f hf ▸ h.pinLength f hf) ‹_›
        have hkeep : ∀ f, s.pin = some f → (if (loadPin content).length = FINGERPRINT_LEN then
            some (loadPin content) else s.pin) = some f := by
          intro f hf
          rw [hpinned f hf, if_pos (h.pinLength f hf)]
        refine ⟨?_, hkeep, fun f hf => (hpin f hf).2, rfl, rfl⟩
        exact
          { pinLength := fun f hf => (hpin f hf).2 ▸ (hpin f hf).1
            pinStored := fun f hf => ⟨content, hstore, (hpin f hf).2⟩
            pinLoaded := fun f hf => Or.inr (hpin f hf).2
            loaded := fun _ => ⟨content, hstore, rfl⟩
            loadedPin := fun hlength => if_pos hlength
            pending := fun htrue => nomatch hneeds.symm.trans htrue
            peer := fun htrue => nomatch htls.symm.trans htrue
            peerShape := fun htrue => nomatch htls.symm.trans htrue
            stored := h.stored
            acceptedLength := h.acceptedLength }
  · rw [loadStore_of_loaded hloaded]
    exact ⟨h, fun _ hpin => hpin, fun f hpin => (h.pinLoaded f hpin).resolve_left hloaded,
      rfl, rfl⟩

/-- A connection that has passed the check: to the pinned server, or to the first one. -/
theorem Trusted.established
    {s : PinningClient} (h : s.Trusted) (hash : Vector UInt8 32) {needs : Bool}
    (hpeer : ∀ f, s.pin = some f → sha256Hex hash = f)
    (hpending : needs = true → s.pin = none ∧ s.m_pinnedFingerprint = []) :
    Trusted { s with
      m_tlsEstablished := true
      m_peerFingerprint := sha256Hex hash
      m_peerNeedsPinning := needs } :=
  { h with
    pending := hpending
    peer := fun _ => hpeer
    peerShape := fun _ => ⟨sha256Hex_plain hash, length_sha256Hex hash⟩ }

/-- A connection that has not passed it. -/
theorem Trusted.refused
    {s : PinningClient} (h : s.Trusted) (peer : List UInt8) :
    PinningClient.Trusted
      (PinningClient.disconnect { s with m_tlsEstablished := true, m_peerFingerprint := peer }) :=
  { h with
    pending := fun hneeds => nomatch hneeds
    peer := fun htls => nomatch htls
    peerShape := fun htls => nomatch htls }

/-- `connect` keeps the pin, and lets only its server pass. -/
theorem Trusted.connect
    {s : PinningClient} (h : s.Trusted) {outcome : ConnectOutcome}
    (hreads : s.StoreReads outcome.storeReads) :
    (s.connect outcome).2.Trusted ∧
      (∀ f, s.pin = some f → (s.connect outcome).2.pin = some f) ∧
      ((s.connect outcome).1 = true → ∀ f, s.pin = some f →
        (s.connect outcome).2.m_peerFingerprint = f) := by
  obtain ⟨pathSet, store, pinned, peer, needs, tls, pin, accepted⟩ := s
  obtain ⟨hloads, hpin, hloaded, hneeds, htls⟩ := h.disconnect.loadStore rfl rfl hreads
  unfold PinningClient.connect
  cases outcome.transport with
  | false => exact ⟨h.disconnect, fun _ hpin => hpin, fun hfalse => nomatch hfalse⟩
  | true =>
      simp only [Bool.not_true, Bool.false_eq_true, if_false]
      unfold PinningClient.checkServerCert
      cases pathSet with
      | false =>
          exact ⟨h.disconnect.refused _, fun _ hpin => hpin, fun hfalse => nomatch hfalse⟩
      | true =>
          cases outcome.cert with
          | none =>
              exact ⟨h.disconnect.refused _, fun _ hpin => hpin, fun hfalse => nomatch hfalse⟩
          | some hash =>
              have hpath : (!(PinningClient.disconnect ⟨true, store, pinned, peer, needs, tls,
                  pin, accepted⟩).storePathSet) = false := rfl
              simp only [hpath, Bool.false_eq_true, if_false]
              rw [loadStore_tls]
              generalize PinningClient.loadStore _ outcome.storeReads = u at *
              by_cases hfirst : u.m_pinnedFingerprint = []
              · have hnone : u.pin = none := by
                  cases hu : u.pin with
                  | none => rfl
                  | some f =>
                      exact absurd ((hloaded f hu).symm.trans hfirst) (pin_ne_nil hloads hu)
                simp only [if_pos hfirst, if_true]
                refine ⟨?_, hpin, fun _ f hf => ?_⟩
                · exact hloads.established hash (fun f hf => nomatch hnone.symm.trans hf)
                    (fun _ => ⟨hnone, hfirst⟩)
                · exact nomatch hnone.symm.trans (hpin f hf)
              · simp only [if_neg hfirst]
                by_cases hsame : sameFingerprint u.m_pinnedFingerprint (sha256Hex hash) = true
                · simp only [if_pos hsame]
                  have hpeer : ∀ f, u.pin = some f → sha256Hex hash = f := fun f hf =>
                    ((sameFingerprint_iff _ _).mp hsame).symm.trans (hloaded f hf)
                  refine ⟨?_, hpin, fun _ f hf => hpeer f (hpin f hf)⟩
                  exact hloads.established hash hpeer
                    (fun htrue => nomatch hneeds.symm.trans htrue)
                · simp only [if_neg hsame]
                  exact ⟨hloads.refused _, hpin, fun hfalse => nomatch hfalse⟩

/-! ### The handshake -/

/-- `pinPeerFingerprint` pins the server that has accepted the PIN, if none is pinned. -/
theorem Trusted.pinPeerFingerprint
    {s : PinningClient} (h : s.Trusted) (htls : s.m_tlsEstablished = true)
    (haccepted : s.m_peerFingerprint ∈ s.accepted) (write : WriteOutcome) :
    (s.pinPeerFingerprint write).2.Trusted ∧
      ∀ f, s.pin = some f → (s.pinPeerFingerprint write).2.pin = some f := by
  by_cases hneeds : s.m_peerNeedsPinning = true
  · obtain ⟨hnone, hempty⟩ := h.pending hneeds
    obtain ⟨hplain, hlength⟩ := h.peerShape htls
    have hunpinned : ∀ {f}, s.pin ≠ some f := by
      intro f hpin
      exact nomatch hnone.symm.trans hpin
    cases write with
    | cannotOpen =>
        have heq : s.pinPeerFingerprint .cannotOpen = (false, s) := by
          simp [PinningClient.pinPeerFingerprint, hneeds]
        rw [heq]
        exact ⟨h, fun _ hpin => hpin⟩
    | failed written =>
        have heq : s.pinPeerFingerprint (.failed written) =
            (false, { s with store := some ((pinLine s.m_peerFingerprint).take written) }) := by
          simp [PinningClient.pinPeerFingerprint, hneeds]
        rw [heq]
        refine ⟨?_, fun _ hpin => hpin⟩
        exact
          { h with
            pinStored := fun f hpin => absurd hpin hunpinned
            loaded := fun hne => absurd hempty hne
            pending := fun _ => ⟨hnone, hempty⟩
            stored := fun content hstore => by
              obtain rfl := Option.some.inj hstore
              rw [loadPin_take hplain]
              exact Or.inr ⟨_, haccepted, List.take_prefix _ _⟩ }
    | ok =>
        have heq : s.pinPeerFingerprint .ok = (true, { s with
            store := some (pinLine s.m_peerFingerprint)
            m_pinnedFingerprint := s.m_peerFingerprint
            m_peerNeedsPinning := false
            pin := some s.m_peerFingerprint }) := by
          simp [PinningClient.pinPeerFingerprint, hneeds]
        have hholds : ∃ content, some (pinLine s.m_peerFingerprint) = some content ∧
            loadPin content = s.m_peerFingerprint :=
          ⟨_, rfl, loadPin_pinLine hplain⟩
        rw [heq]
        refine ⟨?_, fun _ hpin => absurd hpin hunpinned⟩
        exact
          { h with
            pinLength := fun f hpin => Option.some.inj hpin ▸ hlength
            pinStored := fun f hpin => Option.some.inj hpin ▸ hholds
            pinLoaded := fun f hpin => Or.inr (Option.some.inj hpin)
            loaded := fun _ => hholds
            loadedPin := fun _ => rfl
            pending := fun hfalse => nomatch hfalse
            peer := fun _ f hpin => Option.some.inj hpin
            stored := fun content hstore => by
              obtain rfl := Option.some.inj hstore
              rw [loadPin_pinLine hplain]
              exact Or.inr ⟨_, haccepted, List.prefix_rfl⟩ }
  · have heq : s.pinPeerFingerprint write = (true, s) := by
      simp [PinningClient.pinPeerFingerprint, hneeds]
    rw [heq]
    exact ⟨h, fun _ hpin => hpin⟩

theorem Trusted.accept
    {s : PinningClient} (h : s.Trusted) (htls : s.m_tlsEstablished = true) :
    Trusted { s with accepted := s.m_peerFingerprint :: s.accepted } :=
  { h with
    stored := fun content hstore => by
      rcases h.stored content hstore with hnil | ⟨f, hf, hprefix⟩
      · exact Or.inl hnil
      · exact Or.inr ⟨f, List.mem_cons_of_mem _ hf, hprefix⟩
    acceptedLength := fun f hf => by
      rcases List.mem_cons.mp hf with rfl | hf
      · exact (h.peerShape htls).2
      · exact h.acceptedLength f hf }

theorem Trusted.finishHandshake
    {s : PinningClient} (h : s.Trusted) (htls : s.m_tlsEstablished = true)
    (haccepted : s.m_peerFingerprint ∈ s.accepted) (outcome : HandshakeOutcome) :
    (s.finishHandshake outcome).2.Trusted ∧
      ∀ f, s.pin = some f → (s.finishHandshake outcome).2.pin = some f := by
  unfold PinningClient.finishHandshake
  cases outcome.streamConfig with
  | none => exact ⟨h, fun _ hpin => hpin⟩
  | some payload =>
      dsimp only
      split
      · exact ⟨h, fun _ hpin => hpin⟩
      · exact h.pinPeerFingerprint htls haccepted outcome.write

/-- `handshake` keeps the pin, and sends the PIN to its server only. -/
theorem Trusted.handshake
    {s : PinningClient} (h : s.Trusted) (outcome : HandshakeOutcome) :
    (s.handshake outcome).2.2.Trusted ∧
      (∀ f, s.pin = some f → (s.handshake outcome).2.2.pin = some f) ∧
      ∀ fp, (s.handshake outcome).2.1 = some fp → ∀ f, s.pin = some f → fp = f := by
  unfold PinningClient.handshake
  by_cases hready : (!(s.m_tlsEstablished && outcome.helloSent && outcome.helloAck &&
      outcome.pinRequest)) = true
  · rw [if_pos hready]
    exact ⟨h, fun _ hpin => hpin, fun fp hsent => nomatch hsent⟩
  · rw [if_neg hready]
    have htls : s.m_tlsEstablished = true := by
      simp only [Bool.not_eq_true', Bool.not_eq_false, Bool.and_eq_true] at hready
      exact hready.1.1.1
    have hsent : ∀ fp, some s.m_peerFingerprint = some fp → ∀ f, s.pin = some f → fp = f :=
      fun fp hfp f hpin => (Option.some.inj hfp).symm.trans (h.peer htls f hpin)
    by_cases hresponse : (!outcome.pinResponseSent) = true
    · rw [if_pos hresponse]
      exact ⟨h, fun _ hpin => hpin, hsent⟩
    · rw [if_neg hresponse]
      cases outcome.pinResult with
      | none => exact ⟨h, fun _ hpin => hpin, hsent⟩
      | some payload =>
          dsimp only
          by_cases haccept : payload.head? ≠ some 0x01
          · rw [if_pos haccept]
            exact ⟨h, fun _ hpin => hpin, hsent⟩
          · rw [if_neg haccept]
            obtain ⟨htrusted, hpin⟩ :=
              (h.accept htls).finishHandshake htls List.mem_cons_self outcome
            exact ⟨htrusted, hpin, hsent⟩

/-! ### Runs -/

/-- The server that an answer has let pass, or that was sent the PIN. -/
def reached : PinningAnswer → Option (List UInt8)
  | .connected fingerprint => fingerprint
  | .handshake _ pinSentTo => pinSentTo
  | .done => none

/-- What a call should do. -/
structure Right (s : PinningClient) (call : PinningCall) : Prop where
  /-- Only the pinned server gets past the check, and is sent the PIN. -/
  onlyPinned : ∀ f, s.pin = some f → ∀ fp, reached (s.step call).1 = some fp → fp = f
  /-- A pinned server has accepted the PIN. -/
  fromAccepted : ∀ f, (s.step call).2.pin = some f → f ∈ (s.step call).2.accepted
  /-- A fingerprint stays pinned until it is cleared. -/
  kept : ∀ f, s.pin = some f →
    (s.step call).2.pin = some f ∨
      ((∃ removed, call = .clear removed) ∧ (s.step call).2.pin = none)

/-- An existing store can be read whenever no fingerprint is loaded. -/
def Readable (s : PinningClient) : PinningCall → Prop
  | .connect outcome => s.StoreReads outcome.storeReads
  | _ => True

theorem Trusted.step
    {s : PinningClient} (h : s.Trusted) {call : PinningCall} (hreads : s.Readable call) :
    (s.step call).2.Trusted ∧ s.Right call := by
  cases call with
  | connect outcome =>
      obtain ⟨htrusted, hpin, hpeer⟩ := h.connect hreads
      refine ⟨htrusted, ⟨fun f hf fp hfp => ?_, fun f => htrusted.pin_accepted,
        fun f hf => Or.inl (hpin f hf)⟩⟩
      simp only [PinningClient.step, reached] at hfp
      split at hfp
      · rw [← Option.some.inj hfp]
        exact hpeer ‹_› f hf
      · exact nomatch hfp
  | handshake outcome =>
      obtain ⟨htrusted, hpin, hsent⟩ := h.handshake outcome
      exact ⟨htrusted, ⟨fun f hf fp hfp => hsent fp hfp f hf, fun f => htrusted.pin_accepted,
        fun f hf => Or.inl (hpin f hf)⟩⟩
  | disconnect =>
      exact ⟨h.disconnect, ⟨fun _ _ _ hfp => (nomatch hfp), fun f => h.disconnect.pin_accepted,
        fun f hf => Or.inl hf⟩⟩
  | clear removed =>
      have hcleared := h.clearPinnedFingerprint removed
      exact ⟨hcleared, ⟨fun _ _ _ hfp => (nomatch hfp), fun f => hcleared.pin_accepted,
        fun f hf => Or.inr ⟨⟨removed, rfl⟩, rfl⟩⟩⟩
  | restart =>
      exact ⟨h.restart, ⟨fun _ _ _ hfp => (nomatch hfp), fun f => h.restart.pin_accepted,
        fun f hf => Or.inl hf⟩⟩

theorem trusted_start
    (storePathSet : Bool) :
    Trusted { storePathSet } where
  pinLength := fun _ hpin => nomatch hpin
  pinStored := fun _ hpin => nomatch hpin
  pinLoaded := fun _ hpin => nomatch hpin
  loaded := fun hne => absurd rfl hne
  loadedPin := fun hlength => nomatch hlength
  pending := fun hneeds => nomatch hneeds
  peer := fun htls => nomatch htls
  peerShape := fun htls => nomatch htls
  stored := fun _ hstore => nomatch hstore
  acceptedLength := fun _ hf => nomatch hf

/-- The calls of a run, from a state in which the pin is trusted. -/
theorem along_right
    {s : PinningClient} (h : s.Trusted) (calls : List PinningCall)
    (hreads : Run.Along step Readable s calls) :
    Run.Along step Right s calls := by
  induction calls generalizing s with
  | nil => trivial
  | cons call calls ih =>
      obtain ⟨htrusted, hright⟩ := h.step hreads.1
      exact ⟨hright, ih htrusted hreads.2⟩

/-- **Trust on first use.**  Only the pinned server passes and is sent the PIN, it has
accepted the PIN, and it stays pinned until it is cleared, in every run that can read its
store. -/
theorem trustOnFirstUse
    (storePathSet : Bool) (calls : List PinningCall)
    (hreads : Run.Along step Readable { storePathSet } calls) :
    Run.Along step Right { storePathSet } calls :=
  along_right (trusted_start storePathSet) calls hreads

/-- A connection to the server with a certificate. -/
def connectTo (cert : Vector UInt8 32) (storeReads : Bool) : PinningCall :=
  .connect { transport := true, cert := some cert, storeReads }

/-- A handshake in which everything goes well. -/
def pairing : PinningCall :=
  .handshake
    { helloSent := true
      helloAck := true
      pinRequest := true
      pinResponseSent := true
      pinResult := some [0x01]
      streamConfig := some (List.replicate 27 0)
      write := .ok }

/-- The app pairs, starts again, and meets another server. -/
theorem trustOnFirstUse_restarted :
    Run.Along step Right { storePathSet := true }
      [connectTo (Vector.replicate 32 0) true, pairing, .restart,
        connectTo (Vector.replicate 32 1) true] :=
  trustOnFirstUse true _
    ⟨fun _ h => absurd rfl h, trivial, trivial, fun _ _ => rfl, trivial⟩

/-- The same, when the store cannot be read: the other server passes. -/
theorem unreadableStore_trustsAnother :
    ¬Run.Along step Right { storePathSet := true }
      [connectTo (Vector.replicate 32 0) true, pairing, .restart,
        connectTo (Vector.replicate 32 1) false] := by
  intro h
  have hpassed := h.2.2.2.1.onlyPinned (sha256Hex (Vector.replicate 32 0)) (by decide)
    (sha256Hex (Vector.replicate 32 1)) (by decide)
  exact absurd hpassed (by decide)

end PinningClient
end Client
end FocusVision
