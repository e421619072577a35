import Mathlib.Data.List.Forall2

/-! # Messages sent in parts

A sender takes messages and sends the first one that it has in parts, until it
closes it and goes on with the next. A part without elements stands for an attempt
that failed. If each part is the next one of the first message, and only a message
that was sent whole or whose last part failed is closed, then the messages leave in
the order in which they were taken, each at most once.
-/

namespace Outbox

variable {α : Type}

/-- What a sender does. -/
inductive Entry (α : Type)
  | take (message : List α)
  | send (part : List α)
  | close

/-- What was sent of each closed message and whether its last part failed, and the same of the
message that comes next. -/
structure Sent (α : Type) where
  closed : List (List α × Bool)
  current : List α
  failed : Bool

def Sent.step (s : Sent α) : Entry α → Sent α
  | .take _ => s
  | .send part => { s with current := s.current ++ part, failed := part.isEmpty }
  | .close => ⟨s.closed ++ [(s.current, s.failed)], [], false⟩

/-- What was sent in a history. -/
def sent (t : List (Entry α)) : Sent α := t.foldl Sent.step ⟨[], [], false⟩

/-- The messages that were taken, in order. -/
def taken (t : List (Entry α)) : List (List α) :=
  t.flatMap fun
    | .take message => [message]
    | _ => []

/-- A message is sent whole unless its last part failed, and no more than the message is sent. -/
def Fate (s : List α × Bool) (message : List α) : Prop :=
  s.1 <+: message ∧ (s.2 = false → s.1 = message)

/-- The messages of which the listed parts are left, where `current` was sent of the first one. -/
def waiting (current : List α) : List (List α) → List (List α)
  | [] => []
  | rest :: rests => (current ++ rest) :: rests

/-- The messages were closed in the order in which they were taken, and the listed parts of the
other ones are left. -/
structure InOrder (t : List (Entry α)) (rests : List (List α)) : Prop where
  closed : ∃ messages, List.Forall₂ Fate (sent t).closed messages ∧
    taken t = messages ++ waiting (sent t).current rests
  idle : rests = [] → (sent t).current = []

section Rules

variable {t : List (Entry α)} {rest message part : List α} {rests : List (List α)}

theorem sent_concat (t : List (Entry α)) (e : Entry α) : sent (t ++ [e]) = (sent t).step e := by
  rw [sent, List.foldl_append]
  rfl

theorem inOrder_nil : InOrder ([] : List (Entry α)) [] where
  closed := ⟨[], .nil, rfl⟩
  idle _ := rfl

theorem waiting_concat {current : List α} (h : rests = [] → current = []) :
    waiting current (rests ++ [message]) = waiting current rests ++ [message] := by
  cases rests with
  | nil => rw [h rfl]; rfl
  | cons rest rests => rfl

theorem InOrder.take (h : InOrder t rests) :
    InOrder (t ++ [.take message]) (rests ++ [message]) where
  closed := by
    obtain ⟨messages, hfate, htaken⟩ := h.closed
    refine ⟨messages, by rwa [sent_concat], ?_⟩
    have ht : taken (t ++ [.take message]) = taken t ++ [message] := List.flatMap_append
    rw [ht, htaken, sent_concat, Sent.step, waiting_concat h.idle, List.append_assoc]
  idle he := absurd he (by simp)

/-- A part of the first message is sent, or an attempt to send one fails. -/
theorem InOrder.send (h : InOrder t ((part ++ rest) :: rests)) :
    InOrder (t ++ [.send part]) (rest :: rests) where
  closed := by
    obtain ⟨messages, hfate, htaken⟩ := h.closed
    refine ⟨messages, by rwa [sent_concat], ?_⟩
    have ht : taken (t ++ [.send part]) = taken t := by simp [taken]
    rw [ht, htaken, sent_concat, Sent.step, waiting, waiting, List.append_assoc]
  idle he := absurd he (by simp)

/-- The first message is closed. -/
theorem InOrder.close (h : InOrder t (rest :: rests)) (hr : (sent t).failed = false → rest = []) :
    InOrder (t ++ [.close]) rests where
  closed := by
    obtain ⟨messages, hfate, htaken⟩ := h.closed
    refine ⟨messages ++ [(sent t).current ++ rest], ?_, ?_⟩
    · rw [sent_concat]
      refine List.rel_append hfate (.cons ⟨List.prefix_append _ _, fun hf => ?_⟩ .nil)
      rw [hr hf, List.append_nil]
    · have ht : taken (t ++ [.close]) = taken t := by simp [taken]
      have hw : waiting (sent (t ++ [.close])).current rests = rests := by
        rw [sent_concat]
        cases rests <;> rfl
      rw [ht, htaken, hw, waiting, List.append_assoc]
      rfl
  idle _ := by rw [sent_concat]; rfl

end Rules

end Outbox
