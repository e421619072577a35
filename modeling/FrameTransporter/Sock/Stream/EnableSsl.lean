import FrameTransporter.Sock.Stream.Events

/-! # Switching on TLS

The TLS object is stored in the stream before the calls that link it to the socket.
If one of them fails the object stays, while the state of TLS is still that of a plain
stream. Reading and writing assert that the two agree.
-/

namespace FrameTransporter

open Hoare

namespace Stream

open ReadEvent WriteEvent

variable {π : Type} {E : Fault → Prop} {w : World Stream π} {r : SslNew}

/-- The socket once the handshake is to begin. -/
def handshakeBegun (s : Stream) : Stream :=
  { readUnsetEvent {READ_WANT_READ} (readSetEvent {SSL_HANDSHAKE_WANT_READ}
      (writeSetEvent {SSL_HANDSHAKE_WANT_WRITE} { s with ssl := true })) with sslStatus := 1 }

/-- What TLS is switched on with: all calls succeed, or one of them fails. -/
theorem wp_enableSsl {Q : Bool → World Stream π → Prop} : wp E (enableSsl r) Q w ↔
    if w.socket.ssl = true then Q false w
    else if r.new = true ∧ r.setFd = true ∧ r.setExData = true then
      Q true (w.setSocket (handshakeBegun w.socket))
    else Q false (w.setSocket { w.socket with ssl := r.new }) := by
  obtain ⟨new, setFd, setExData⟩ := r
  rw [enableSsl, wp_bind, wp_getSocket]
  cases hs : w.socket.ssl with
  | true => rfl
  | false =>
    cases new <;> cases setFd <;> cases setExData <;> rfl

/-- The TLS object and its state, the events and the watchers are the same. -/
structure SameTls (s s' : Stream) : Prop where
  ssl : s'.ssl = s.ssl
  sslStatus : s'.sslStatus = s.sslStatus
  readEvents : s'.readEvents = s.readEvents
  writeEvents : s'.writeEvents = s.writeEvents
  readWatcher : s'.readWatcher = s.readWatcher
  writeWatcher : s'.writeWatcher = s.writeWatcher

/-- A call that returns false leaves the TLS state, the events and the watchers as they were. A
stream that could read and write still can, and a plain one may switch TLS on later. -/
def EnableSslAtomic (r : SslNew) (w : World Stream π) : Prop :=
  wp (fun _ => False) (enableSsl r) (fun ok w' => ok = false →
    SameTls w.socket w'.socket ∧ (w.socket.Established → w'.socket.Established) ∧
      (w.socket.ssl = false →
        wp (fun _ => False) (enableSsl ⟨true, true, true⟩) (fun ok _ => ok = true) w')) w

/-- The call is atomic exactly when TLS is on already, there is no object to store, or the object is
linked with the socket and the socket with it. -/
theorem enableSsl_atomic_iff (r : SslNew) (w : World Stream π) : EnableSslAtomic r w ↔
    w.socket.ssl = true ∨ r.new = false ∨ r.setFd = true ∧ r.setExData = true := by
  have hsame : ∀ w : World Stream π, SameTls w.socket w.socket ∧
      (w.socket.Established → w.socket.Established) ∧ (w.socket.ssl = false →
        wp (fun _ => False) (enableSsl ⟨true, true, true⟩) (fun ok _ => ok = true) w) := by
    intro w
    refine ⟨⟨rfl, rfl, rfl, rfl, rfl, rfl⟩, id, fun hs => ?_⟩
    rw [wp_enableSsl, if_neg (by simp [hs])]
    rfl
  unfold EnableSslAtomic
  rw [wp_enableSsl]
  cases hs : w.socket.ssl with
  | true =>
    rw [if_pos rfl]
    exact ⟨fun _ => Or.inl rfl, fun _ _ => hs ▸ hsame w⟩
  | false =>
    rw [if_neg (by rintro ⟨⟩)]
    cases hn : r.new with
    | false =>
      have hw : w.setSocket { w.socket with ssl := false } = w := by rw [← hs]; rfl
      rw [if_neg (by simp), hw]
      exact ⟨fun _ => Or.inr (Or.inl rfl), fun _ _ => hs ▸ hsame w⟩
    | true =>
      by_cases hlinked : r.setFd = true ∧ r.setExData = true
      · rw [if_pos ⟨rfl, hlinked⟩]
        exact ⟨fun _ => Or.inr (Or.inr hlinked), fun _ => by rintro ⟨⟩⟩
      · rw [if_neg fun h => hlinked h.2]
        constructor
        · intro h
          have hssl := (h rfl).1.ssl
          rw [hs] at hssl
          cases hssl
        · rintro (h | h | h)
          · cases h
          · cases h
          · exact absurd h hlinked

/-- After a plain stream kept an object that is not linked, reading and writing fail an assertion
and TLS cannot be switched on again. -/
theorem enableSsl_stuck (hs : w.socket.ssl = false) (h0 : w.socket.sslStatus = 0)
    (hr : ¬(r.new = false ∨ r.setFd = true ∧ r.setExData = true)) :
    wp (fun _ => False) (enableSsl r) (fun ok w' => ok = false ∧
      (∀ r', wp (fun _ => False) (enableSsl r') (fun ok _ => ok = false) w') ∧
      ∀ env d, wp (· = .abort .phase) (onReadEvent env d) (fun _ _ => False) w' ∧
        wp (· ∈ [.abort .writeReady, .abort .phase]) (writeReal env d) (fun _ _ => False) w')
          w := by
  obtain ⟨hn, hlinked⟩ := not_or.mp hr
  have hn : r.new = true := by simpa using hn
  rw [wp_enableSsl, if_neg (by simp [hs]), if_neg fun h => hlinked h.2, hn]
  let w' := w.setSocket { w.socket with ssl := true }
  have hbroken : ¬w'.socket.Established := by
    rintro ⟨-, ⟨h, -⟩ | ⟨-, h⟩⟩
    · cases h
    · have h : w.socket.sslStatus = 2 := h
      omega
  refine ⟨rfl, fun r' => wp_enableSsl.mpr rfl, fun env d => ⟨?_, ?_⟩⟩
  · rw [onReadEvent, wp_bind, wp_getSocket]
    exact (wp_ite _ _).mpr ⟨fun _ => rfl, fun h => absurd hbroken h⟩
  · rw [writeReal, wp_bind, wp_getSocket, wp_ite, wp_ite]
    exact ⟨fun _ => by simp, fun _ => ⟨fun _ => by simp, fun h => absurd hbroken h⟩⟩

/-- If an accepted stream cannot be linked with its new object, it keeps the object. -/
theorem not_enableSsl_atomic :
    ¬∀ (r : SslNew) (w : World Stream Unit), EnableSslAtomic r w := by
  intro h
  have hatomic := h ⟨true, false, true⟩ (World.init (opened .accept) () fun _ _ => 0)
  have hsame := (wp_enableSsl.mp hatomic rfl).1.ssl
  cases hsame

end Stream

end FrameTransporter
