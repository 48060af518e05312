import SrsUE.Common.MsgQueue
import SrsUE.Lib.Ring
import SrsUE.Lib.Run

/-!
# `SrsUE.Proofs.Common.MsgQueueFifo`: the message queue is a bounded FIFO

`Fifo` is what the queue is for: a list of at most `capacity` messages, with a call for each call of
the queue. `Rep` says that a queue stands for such a list: the slots of `buf` from `tail` on hold
it, `head` is the slot behind them, and `unread` is its length.

* `Rep.call`: a call of the queue does what the call of the list does, and returns the same.
* `BytesRep`: `unread_bytes` is the number of bytes of the list, modulo the width of the counter. A
  call keeps this unless it changes `N_bytes` of a message that is queued.
* `msgQueue_fifo`: what this says about all calls of all threads, in any order.
-/

set_option autoImplicit false

namespace SrsUE.Proofs.Common

open SrsUE.Common SrsUE.Lib
open SrsUE.Rlc (add32 sub32 add32_of_lt sub32_of_le)

variable {μ θ : Type}

/-! ### The abstract queue -/

/-- The messages that are queued, the oldest first, and the bytes that each message has. -/
structure Fifo (μ : Type) where
  queued : List μ := []
  nBytes : μ → UInt32

/-- The number of bytes that are queued. -/
def Fifo.bytes (f : Fifo μ) : Nat := (f.queued.map fun m => (f.nBytes m).toNat).sum

/-- One call of a FIFO of `capacity` messages. Its counters are 32-bit numbers. -/
def Fifo.call [DecidableEq μ] (capacity : Nat) (f : Fifo μ) : θ × MsgQueueCall μ →
    Option (Fifo μ × MsgQueueOut μ)
  | (_, .write msg) =>
    if f.queued.length < capacity then some ({ f with queued := f.queued ++ [msg] }, .done)
    else none
  | (_, .read) =>
    match f.queued with
    | [] => none
    | msg :: rest => some ({ f with queued := rest }, .message msg)
  | (_, .tryRead) =>
    match f.queued with
    | [] => some (f, .tried none)
    | msg :: rest => some ({ f with queued := rest }, .tried (some msg))
  | (_, .size) => some (f, .number f.queued.length)
  | (_, .sizeBytes) => some (f, .number (f.bytes % 2 ^ 32))
  | (_, .setNBytes msg n) => some ({ f with nBytes := Function.update f.nBytes msg n }, .done)

/-! ### Runs -/

/-- The state that a call leaves. -/
def queueStep [DecidableEq μ] (s : MsgQueueState μ) (a : θ × MsgQueueCall μ) :
    Option (MsgQueueState μ) :=
  (s.call a).map Prod.fst

/-- The list that a call leaves. -/
def fifoStep [DecidableEq μ] (capacity : Nat) (f : Fifo μ) (a : θ × MsgQueueCall μ) :
    Option (Fifo μ) :=
  (f.call capacity a).map Prod.fst

/-- The call does not change `N_bytes` of a message that is queued. -/
def Unmodified (f : Fifo μ) (a : θ × MsgQueueCall μ) : Prop :=
  ∀ m n, a.2 = .setNBytes m n → m ∉ f.queued

/-- The messages that are written, in their order. -/
def written (as : List (θ × MsgQueueCall μ)) : List μ :=
  as.flatMap fun a => match a.2 with
    | .write msg => [msg]
    | .read | .tryRead | .size | .sizeBytes | .setNBytes .. => []

/-- The messages that come out, in their order. -/
def received [DecidableEq μ] (s : MsgQueueState μ) (as : List (θ × MsgQueueCall μ)) : List μ :=
  (trace MsgQueueState.call s as).flatMap fun o => (o.map MsgQueueOut.msgs).getD []

/-! ### What a queue stands for -/

/-- The queue holds the messages of the list in its ring. -/
structure Rep (n : Nat) (s : MsgQueueState μ) (f : Fifo μ) : Prop where
  ring : InRing (fun k m => s.queue.buf k = m) (fun _ => True) n s.queue.tail f.queued
  capacity : s.queue.capacity = n
  head : s.queue.head = slotAt n s.queue.tail f.queued.length
  unread : s.queue.unread = f.queued.length
  nBytes : s.nBytes = f.nBytes

/-- `unread_bytes` counts the bytes of the list. -/
def BytesRep (s : MsgQueueState μ) (f : Fifo μ) : Prop := s.queue.unreadBytes = f.bytes % 2 ^ 32

section
variable {n : Nat} {s s' : MsgQueueState μ} {f : Fifo μ} {m : μ} {rest : List μ}

/-- The queue is full when the list has as many messages as there are places. -/
theorem Rep.isFull_iff (h : Rep n s f) : s.queue.isFull = true ↔ ¬f.queued.length < n := by
  have hle := h.ring.length_le
  rw [MsgQueue.isFull, decide_eq_true_iff, h.unread, h.capacity]
  omega

/-- It is empty when the list is. -/
theorem Rep.isEmpty_iff (h : Rep n s f) : s.queue.isEmpty = true ↔ f.queued = [] := by
  rw [MsgQueue.isEmpty, decide_eq_true_iff, h.unread, List.length_eq_zero_iff]

/-- The positions advance by one slot. -/
theorem advance (hcap : n < 2 ^ 32) {i : Nat} (hi : i < n) :
    add32 i 1 % n = slotAt n i 1 := by
  rw [add32_of_lt (by omega), slotAt]

/-- A message is put behind the others. -/
theorem Rep.push (h : Rep n s f) (hcap : n < 2 ^ 32) (hroom : f.queued.length < n) :
    Rep n { s with queue := s.queue.push s.nBytes m } { f with queued := f.queued ++ [m] } where
  ring := by
    refine h.ring.snoc hroom ?_ (fun k _ hne y hy => ?_) (fun _ _ _ _ => trivial)
    · show Function.update s.queue.buf s.queue.head m _ = m
      rw [h.head, Function.update_self]
    · show Function.update s.queue.buf s.queue.head m k = y
      rw [Function.update_of_ne (by rw [h.head]; exact hne), hy]
  capacity := h.capacity
  head := by
    show add32 s.queue.head 1 % s.queue.capacity = _
    rw [h.capacity, h.head, advance hcap (slotAt_lt h.ring.pos), slotAt_slotAt, List.length_append]
    rfl
  unread := by
    show add32 s.queue.unread 1 = _
    rw [h.unread, add32_of_lt (by omega), List.length_append]
    rfl
  nBytes := h.nBytes

/-- The oldest message is taken out. -/
theorem Rep.pop (h : Rep n s f) (hcap : n < 2 ^ 32) (hqueued : f.queued = m :: rest) :
    (s.queue.pop s.nBytes).1 = m ∧
      Rep n { s with queue := (s.queue.pop s.nBytes).2 } { f with queued := rest } := by
  have hring := h.ring
  rw [hqueued] at hring
  have hunread := h.unread
  have hhead := h.head
  rw [hqueued, List.length_cons] at hunread hhead
  refine ⟨hring.head, {
    ring := ?_, capacity := h.capacity, head := ?_, unread := ?_, nBytes := h.nBytes }⟩
  · show InRing _ _ n (add32 s.queue.tail 1 % s.queue.capacity) rest
    rw [h.capacity, advance hcap hring.start_lt]
    exact hring.tail (fun _ _ _ _ hy => hy) (fun _ _ _ _ => trivial) trivial
  · show s.queue.head = slotAt n (add32 s.queue.tail 1 % s.queue.capacity) rest.length
    rw [h.capacity, advance hcap hring.start_lt, slotAt_slotAt, Nat.add_comm 1]
    exact hhead
  · show sub32 s.queue.unread 1 = rest.length
    rw [hunread, sub32_of_le (by omega), Nat.add_sub_cancel]

/-! ### Bytes -/

/-- The bytes of a message are added. -/
theorem BytesRep.push (h : BytesRep s f) (hrep : Rep n s f) :
    BytesRep { s with queue := s.queue.push s.nBytes m } { f with queued := f.queued ++ [m] } := by
  show add32 s.queue.unreadBytes (s.nBytes m).toNat
      = Fifo.bytes { f with queued := f.queued ++ [m] } % 2 ^ 32
  have hbytes : Fifo.bytes { f with queued := f.queued ++ [m] } = f.bytes + (f.nBytes m).toNat := by
    simp [Fifo.bytes]
  rw [hbytes, h, hrep.nBytes]
  exact Nat.mod_add_mod ..

/-- They are taken off, modulo `2 ^ 32`. -/
theorem BytesRep.pop (h : BytesRep s f) (hrep : Rep n s f) (hqueued : f.queued = m :: rest) :
    BytesRep { s with queue := (s.queue.pop s.nBytes).2 } { f with queued := rest } := by
  have hring := hrep.ring
  rw [hqueued] at hring
  have hbytes : f.bytes = (f.nBytes m).toNat + Fifo.bytes { f with queued := rest } := by
    rw [Fifo.bytes, hqueued, List.map_cons, List.sum_cons]
    rfl
  show sub32 s.queue.unreadBytes (s.nBytes (s.queue.buf s.queue.tail)).toNat = _
  rw [hring.head, h, hbytes, hrep.nBytes]
  -- Where the counter has wrapped around, the difference wraps back.
  have hlt := (f.nBytes m).toNat_lt
  unfold sub32
  split
  · omega
  · omega

/-- The bytes of a message that is not queued are not counted. -/
theorem bytes_update [DecidableEq μ] (f : Fifo μ) (k : UInt32) (hm : m ∉ f.queued) :
    Fifo.bytes { f with nBytes := Function.update f.nBytes m k } = f.bytes := by
  refine congrArg List.sum (List.map_congr_left fun x hx => ?_)
  exact congrArg UInt32.toNat (Function.update_of_ne (ne_of_mem_of_not_mem hx hm) ..)

/-! ### Calls -/

/-- A call of the queue and the same call of the list: both wait, or neither does. The results
agree, but for the number of bytes, which agrees as long as the messages that are queued stay as
they are. -/
def Agree (n : Nat) (s : MsgQueueState μ) (f : Fifo μ) (a : θ × MsgQueueCall μ)
    (x : MsgQueueState μ × MsgQueueOut μ) (y : Fifo μ × MsgQueueOut μ) : Prop :=
  Rep n x.1 y.1 ∧ (a.2 ≠ .sizeBytes → x.2 = y.2) ∧
    (BytesRep s f → Unmodified f a → BytesRep x.1 y.1 ∧ x.2 = y.2)

/-- A call does on the queue what it does on the list. -/
theorem Rep.call [DecidableEq μ] (h : Rep n s f) (hcap : n < 2 ^ 32) (a : θ × MsgQueueCall μ) :
    Option.Rel (Agree n s f a) (s.call a) (f.call n a) := by
  obtain ⟨t, c⟩ := a
  -- A call that would wait is no step on either side.
  cases c with
  | write msg =>
    rw [MsgQueueState.call, Fifo.call]
    by_cases hroom : f.queued.length < n
    · rw [if_neg (fun hfull => h.isFull_iff.mp hfull hroom), if_pos hroom]
      exact .some ⟨h.push hcap hroom, fun _ => rfl, fun hbytes _ => ⟨hbytes.push h, rfl⟩⟩
    · rw [if_pos (h.isFull_iff.mpr hroom), if_neg hroom]
      exact .none
  | read =>
    rw [MsgQueueState.call, Fifo.call]
    cases hqueued : f.queued with
    | nil =>
      rw [if_pos (h.isEmpty_iff.mpr hqueued)]
      exact .none
    | cons msg rest =>
      obtain ⟨hmsg, hrep⟩ := h.pop hcap hqueued
      rw [if_neg (fun hempty => by rw [h.isEmpty_iff.mp hempty] at hqueued; cases hqueued), hmsg]
      exact .some ⟨hrep, fun _ => rfl, fun hbytes _ => ⟨hbytes.pop h hqueued, rfl⟩⟩
  | tryRead =>
    rw [MsgQueueState.call, Fifo.call]
    cases hqueued : f.queued with
    | nil =>
      rw [if_pos (h.isEmpty_iff.mpr hqueued)]
      exact .some ⟨h, fun _ => rfl, fun hbytes _ => ⟨hbytes, rfl⟩⟩
    | cons msg rest =>
      obtain ⟨hmsg, hrep⟩ := h.pop hcap hqueued
      rw [if_neg (fun hempty => by rw [h.isEmpty_iff.mp hempty] at hqueued; cases hqueued), hmsg]
      exact .some ⟨hrep, fun _ => rfl, fun hbytes _ => ⟨hbytes.pop h hqueued, rfl⟩⟩
  | size =>
    have hsize : MsgQueueOut.number (μ := μ) s.queue.size = .number f.queued.length :=
      congrArg MsgQueueOut.number h.unread
    exact .some ⟨h, fun _ => hsize, fun hbytes _ => ⟨hbytes, hsize⟩⟩
  | sizeBytes =>
    exact .some ⟨h, fun hne => absurd rfl hne, fun hbytes _ =>
      ⟨hbytes, congrArg MsgQueueOut.number hbytes⟩⟩
  | setNBytes msg k =>
    refine .some ⟨⟨h.ring, h.capacity, h.head, h.unread, ?_⟩, fun _ => rfl, fun hbytes hmod =>
      ⟨?_, rfl⟩⟩
    · show Function.update s.nBytes msg k = Function.update f.nBytes msg k
      rw [h.nBytes]
    · exact Eq.trans hbytes (congrArg (· % 2 ^ 32) (bytes_update f k (hmod msg k rfl)).symm)

/-- `size_tail_bytes` is the number of bytes of the oldest message. -/
theorem Rep.sizeTailBytes (h : Rep n s f) (hqueued : f.queued = m :: rest) :
    s.queue.sizeTailBytes s.nBytes = (f.nBytes m).toNat := by
  have hring := h.ring
  rw [hqueued] at hring
  rw [MsgQueue.sizeTailBytes, hring.head, h.nBytes]

end

/-! ### From the constructor on -/

section
variable {n : Nat} (buf : Nat → μ) (nBytes : μ → UInt32)

/-- A new queue. -/
def newQueue (n : Nat) : MsgQueueState μ := { queue := .constructed n buf, nBytes := nBytes }

/-- A new queue stands for the empty list. -/
theorem rep_newQueue (hn : 1 ≤ n) : Rep n (newQueue buf nBytes n) { nBytes := nBytes } where
  ring := .empty hn fun _ _ => trivial
  capacity := rfl
  head := (slotAt_zero hn).symm
  unread := rfl
  nBytes := rfl

/-- It counts no bytes. -/
theorem bytesRep_newQueue : BytesRep (newQueue buf nBytes n) { nBytes := nBytes } := rfl

end

section
variable [DecidableEq μ] {n : Nat} {s s' : MsgQueueState μ} {f : Fifo μ}

/-- What is written and what is received balance: the rest is queued. -/
theorem Fifo.call_balance {f f' : Fifo μ} {a : θ × MsgQueueCall μ} {o : MsgQueueOut μ}
    (h : f.call n a = some (f', o)) : f.queued ++ written [a] = o.msgs ++ f'.queued := by
  obtain ⟨t, c⟩ := a
  -- Only a write adds, and only the two reads take away.
  cases c with
  | write msg =>
    rw [Fifo.call] at h
    split at h
    · cases h
      rfl
    · cases h
  | read =>
    rw [Fifo.call] at h
    split at h
    · cases h
    · rename_i hqueued
      cases h
      rw [hqueued]
      exact List.append_nil _
  | tryRead =>
    rw [Fifo.call] at h
    split at h
    · cases h
      exact List.append_nil _
    · rename_i hqueued
      cases h
      rw [hqueued]
      exact List.append_nil _
  | size =>
    cases h
    exact List.append_nil _
  | sizeBytes =>
    cases h
    exact List.append_nil _
  | setNBytes msg k =>
    cases h
    exact List.append_nil _

/-- Outputs that may differ in a number only have the same messages. -/
theorem Agree.msgs_eq {a : θ × MsgQueueCall μ} {x : MsgQueueState μ × MsgQueueOut μ}
    {y : Fifo μ × MsgQueueOut μ} (h : Agree n s f a x y) (hx : s.call a = some x)
    (hy : f.call n a = some y) : x.2.msgs = y.2.msgs := by
  obtain ⟨t, c⟩ := a
  by_cases hbytes : c = .sizeBytes
  · subst hbytes
    cases hx
    cases hy
    rfl
  · rw [h.2.1 hbytes]

/-- The messages come out in the order in which they were written. Induction on the calls. -/
theorem Rep.run (h : Rep n s f) (hn : n < 2 ^ 32) {as : List (θ × MsgQueueCall μ)}
    (hrun : runTo queueStep s as = some s') :
    ∃ f', Rep n s' f' ∧ f.queued ++ written as = received s as ++ f'.queued := by
  induction as generalizing s f with
  | nil =>
    obtain rfl := Option.some.inj hrun
    exact ⟨f, h, List.append_nil _⟩
  | cons a as ih =>
    obtain ⟨s₁, hstep, hrest⟩ := Option.bind_eq_some_iff.mp hrun
    obtain ⟨⟨s₂, o⟩, hcall, rfl⟩ := Option.map_eq_some_iff.mp hstep
    have hrel := h.call hn a
    rw [hcall] at hrel
    cases hfifo : f.call n a with
    | none =>
      rw [hfifo] at hrel
      cases hrel
    | some y =>
      rw [hfifo] at hrel
      cases hrel with
      | some hagree =>
        -- What the call writes joins the list behind, and what it returns leaves it in front.
        obtain ⟨f', hrep, hbalance⟩ := ih hagree.1 hrest
        refine ⟨f', hrep, ?_⟩
        have hmsgs : o.msgs = y.2.msgs := hagree.msgs_eq hcall hfifo
        have hwritten : written (a :: as) = written [a] ++ written as := by
          simp only [written, List.flatMap_cons, List.flatMap_nil, List.append_nil]
        have hreceived : received s (a :: as) = o.msgs ++ received s₂ as := by
          rw [received, trace_cons hcall]
          rfl
        calc f.queued ++ written (a :: as)
            = (f.queued ++ written [a]) ++ written as := by rw [hwritten, List.append_assoc]
          _ = o.msgs ++ (y.1.queued ++ written as) := by
              rw [Fifo.call_balance hfifo, hmsgs, List.append_assoc]
          _ = o.msgs ++ (received s₂ as ++ f'.queued) := by rw [hbalance]
          _ = received s (a :: as) ++ f'.queued := by rw [hreceived, List.append_assoc]

/-- Writes one after the other, as long as there is room. -/
theorem Rep.writes (hn : n < 2 ^ 32) (t : θ) (ms : List μ) : ∀ {s : MsgQueueState μ} {f : Fifo μ},
    Rep n s f → BytesRep s f → f.queued.length + ms.length ≤ n →
      ∃ s', runTo queueStep s (ms.map fun m => (t, .write m)) = some s' ∧
        Rep n s' { f with queued := f.queued ++ ms } ∧
          BytesRep s' { f with queued := f.queued ++ ms } := by
  -- Induction on the messages, each of which finds room.
  induction ms with
  | nil =>
    intro s f h hbytes _
    rw [List.append_nil]
    exact ⟨s, rfl, h, hbytes⟩
  | cons m ms ih =>
    intro s f h hbytes hroom
    rw [List.length_cons] at hroom
    have hstep : queueStep s (t, .write m) = some { s with queue := s.queue.push s.nBytes m } := by
      rw [queueStep, MsgQueueState.call, if_neg (fun hfull => h.isFull_iff.mp hfull (by omega))]
      rfl
    obtain ⟨s', hrun, hrep, hbytes'⟩ := ih (h.push (m := m) hn (by omega)) (hbytes.push h) (by
      rw [List.length_append, List.length_singleton]
      omega)
    refine ⟨s', ?_, ?_, ?_⟩
    · rw [List.map_cons, runTo, hstep]
      exact hrun
    · rw [List.append_cons]
      exact hrep
    · rw [List.append_cons]
      exact hbytes'

/-- A new queue that is filled with messages of one size. -/
theorem filled_const (hn : 1 ≤ n) (hlt : n < 2 ^ 32) (c : UInt32) :
    ∃ s', runTo queueStep (newQueue (fun _ => 0) (fun _ => c) n)
        ((List.range n).map fun m => ((), .write m)) = some s' ∧
      s'.queue.size = n ∧ s'.queue.sizeBytes = n * c.toNat % 2 ^ 32 ∧
      ((List.range n).map fun m => (s'.nBytes m).toNat).sum = n * c.toNat := by
  have hsum : ∀ k, ((List.range k).map fun _ => c.toNat).sum = k * c.toNat := by
    intro k
    rw [List.map_const', List.sum_replicate_nat, List.length_range]
  obtain ⟨s', hrun, hrep, hbytes⟩ := Rep.writes hlt () (List.range n)
    (rep_newQueue (fun _ => 0) (fun _ => c) hn) (bytesRep_newQueue (fun _ => 0) (fun _ => c))
      (by simp)
  refine ⟨s', hrun, ?_, ?_, ?_⟩
  · exact hrep.unread.trans List.length_range
  · exact hbytes.trans (congrArg (· % 2 ^ 32) (hsum n))
  · rw [hrep.nBytes]
    exact hsum n

end

/-! ### Results -/

section
variable [DecidableEq μ]

/-- The calls of any threads, in any order, on a new queue return what a FIFO returns; the number of
bytes, too, if no `N_bytes` of a queued message is changed. What is written comes out once, in this
order, or is still queued. -/
theorem msgQueue_fifo {n : Nat} (hn : 1 ≤ n) (hlt : n < 2 ^ 32) (buf : Nat → μ)
    (nBytes : μ → UInt32)
    (as : List (θ × MsgQueueCall μ)) :
    (Throughout (fifoStep n) Unmodified { nBytes := nBytes } as →
      trace MsgQueueState.call (newQueue buf nBytes n) as
        = trace (Fifo.call n) { nBytes := nBytes } as) ∧
    ((∀ a ∈ as, a.2 ≠ .sizeBytes) →
      trace MsgQueueState.call (newQueue buf nBytes n) as
        = trace (Fifo.call n) { nBytes := nBytes } as) ∧
    ∀ s', runTo queueStep (newQueue buf nBytes n) as = some s' →
      ∃ queued, written as = received (newQueue buf nBytes n) as ++ queued ∧ queued.length ≤ n ∧
        s'.queue.size = queued.length := by
  have hrep := rep_newQueue buf nBytes hn
  refine ⟨fun hunmodified => ?_, fun hcalls => ?_, fun s' hrun => ?_⟩
  -- The counter of bytes is right as long as no queued message changes.
  · refine trace_eq_of_refines (R := fun s f => Rep n s f ∧ BytesRep s f) (K := Unmodified) ?_
      ⟨hrep, bytesRep_newQueue buf nBytes⟩ hunmodified
    intro s f a hsf hmod
    refine optionRel_imp (fun x y hagree => ?_) (hsf.1.call hlt a)
    obtain ⟨hbytes, hout⟩ := hagree.2.2 hsf.2 hmod
    exact ⟨⟨hagree.1, hbytes⟩, hout⟩
  · refine trace_eq_of_refines (R := Rep n) (K := fun _ a => a.2 ≠ .sizeBytes) ?_ hrep
      (Throughout.of_kind (I := fun _ => True) (fun _ _ _ ha => ha) (fun _ _ _ _ _ _ => trivial)
        hcalls
        trivial)
    intro s f a hsf hne
    exact optionRel_imp (fun x y hagree => ⟨hagree.1, hagree.2.1 hne⟩) (hsf.call hlt a)
  · obtain ⟨f', hrep', hbalance⟩ := hrep.run hlt hrun
    exact ⟨f'.queued, hbalance, hrep'.ring.length_le, hrep'.unread⟩

/-- Two threads: one writes two messages of 40 bytes, the other one reads the first. -/
theorem msgQueue_fifo_twoThreads :
    trace MsgQueueState.call (newQueue (fun _ => 0) (fun _ => 40) 2)
        [(1, .write 7), (1, .write 8), (2, .read), (1, .sizeBytes)]
      = [some .done, some .done, some (.message 7), some (.number 40)] := by
  refine ((msgQueue_fifo (by decide) (by decide) (fun _ => 0) (fun _ => 40) _).1 ?_).trans
    (by decide)
  simp [Throughout, Unmodified]

end

/-- `2 ^ 19` messages of `2 ^ 13` bytes are queued, and `size_bytes` returns zero. -/
theorem not_sizeBytes :
    ∃ s', runTo queueStep (newQueue (fun _ => 0) (fun _ => 8192) (2 ^ 19))
        ((List.range (2 ^ 19)).map fun m => ((), .write m)) = some s' ∧
      s'.queue.size = 2 ^ 19 ∧ s'.queue.sizeBytes = 0 ∧
      ((List.range (2 ^ 19)).map fun m => (s'.nBytes m).toNat).sum = 2 ^ 32 :=
  filled_const (by decide) (by decide) 8192

end SrsUE.Proofs.Common
