import SrsUE.Lib.Refine
import SrsUE.Proofs.Common.QbuffRing

/-!
# `SrsUE.Proofs.Common.QbuffFifo`: queues of buffers are bounded FIFOs

`QbuffFifo` is what a queue is for: a list of at most `n` messages, next to what the writer has
written for the next message, and to the message that the reader looks at. What is in the memory
that a writer gets is left open. `fifoSpec` says what the actions do to several such lists, and
`fifoAllowed` is the protocol.

* `UserRep`: a queue and the pointers of its users stand for such a list. `UserRep.call` and
  `UsersRep.moveTo` are the steps of the simulation.
* `QbuffsRefine`: new queues do, along all actions that keep to the protocol, what the lists do.
* `qbuffsRefine_iff`: they do exactly when the counters and the buffer of each queue fit into their
  types.
-/

set_option autoImplicit false

namespace SrsUE.Proofs.Common

open SrsUE.Common SrsUE.Lib
open SrsUE.Mac (toInt32)
open SrsUE.Rlc (Bytes)

/-! ### The abstract queue -/

/-- The messages in a queue, the oldest first, what the writer has written for the next one, and the
message that the reader has got from `pop`. -/
structure QbuffFifo where
  msgs : List Bytes := []
  draft : Option Bytes := none
  held : Option Bytes := none

namespace QbuffFifo

variable (f : QbuffFifo)

/-- A message is put into the queue. -/
def put (msg : Bytes) : QbuffFifo := { f with msgs := f.msgs ++ [msg], draft := none }

/-- The oldest message is taken out of it. -/
def drop : QbuffFifo := { f with msgs := f.msgs.tail, held := none }

/-- One call of a queue of `n` messages of at most `m` bytes. `mem` is what a writer finds in the
memory that it gets. -/
def call (n m : Nat) (mem : Bytes) : QbuffCall → QbuffFifo × QbuffOut
  | .request =>
    if f.msgs.length < n then ({ f with draft := some (f.draft.getD mem) }, .flag true)
    else (f, .flag false)
  | .write off bytes => ({ f with draft := f.draft.bind fun d => writeAt d (off, bytes) }, .done)
  | .push len => (f.put ((f.draft.getD []).take len), .flag true)
  | .pop idx =>
    match f.msgs[idx]? with
    | some msg => ({ f with held := some msg }, .popped (some msg.length))
    | none => (f, .popped none)
  | .read => (f, .bytes (f.held.getD []))
  | .release => (f.drop, .done)
  | .send msg =>
    if msg.length ≤ m ∧ f.msgs.length < n then (f.put msg, .flag true) else (f, .flag false)
  | .recv bufferSize =>
    match f.msgs with
    | msg :: _ =>
      if msg.length ≤ bufferSize then (f.drop, .received msg.length msg) else (f, .received (-1) [])
    | [] => (f, .received 0 [])
  | .flush => ({}, .done)
  | .isempty => (f, .flag (decide (f.msgs = [])))
  | .isfull => (f, .flag (decide (n ≤ f.msgs.length)))
  | .pendingMsgs => (f, .number f.msgs.length)
  | .pendingData => (f, .number (f.msgs.map List.length).sum)
  | .maxMsgs => (f, .number n)

/-- The protocol: the writer needs memory from `request`, and stays inside of it. The reader reads a
message that it has got from `pop`, and releases one that is there. A size is a `uint32_t`. -/
def Allowed (n m : Nat) : QbuffCall → Prop
  | .write off bytes => f.draft ≠ none ∧ off + bytes.length ≤ m
  | .push len => f.draft ≠ none ∧ len ≤ m
  | .pop idx => idx < n
  | .read => f.held ≠ none
  | .release => f.msgs ≠ []
  | .send msg => msg.length < 2 ^ 32
  | .recv bufferSize => bufferSize < 2 ^ 32
  | .request | .flush | .isempty | .isfull | .pendingMsgs | .pendingData | .maxMsgs => True

end QbuffFifo

section
variable {κ : Type} [DecidableEq κ]

/-- The oldest message goes from one of several queues to another one, if there is room. -/
def moveFifo (nof : κ → Nat) (fs : κ → QbuffFifo) (src dst : κ) : κ → QbuffFifo :=
  match (fs src).msgs with
  | msg :: _ =>
    if (fs dst).msgs.length < nof dst then
      let fs := Function.update fs dst ((fs dst).put msg)
      Function.update fs src (fs src).drop
    else fs
  | [] => fs

/-- What may follow an action of the users of several queues. -/
def fifoSpec (nof max : κ → Nat) (fs : κ → QbuffFifo) (a : QbuffAction κ) (fs' : κ → QbuffFifo)
    (out : QbuffOut) : Prop :=
  match a with
  | .on k c => ∃ mem f', mem.length = max k ∧ (fs k).call (nof k) (max k) mem c = (f', out) ∧
      fs' = Function.update fs k f'
  | .moveTo src dst => fs' = moveFifo nof fs src dst ∧ out = .done

/-- The protocol for several queues. -/
def fifoAllowed (nof max : κ → Nat) (fs : κ → QbuffFifo) : QbuffAction κ → Prop
  | .on k c => (fs k).Allowed (nof k) (max k) c
  | .moveTo src dst => max dst = max src

/-- New queues of these sizes do what the lists do, along all actions that keep to the protocol. -/
def QbuffsRefine (nof max : κ → Nat) : Prop :=
  ∃ qs : κ → Qbuff, (∀ k, Qbuff.init (nof k) (max k) = some (qs k)) ∧
    ∀ as, Refines qbuffStep (fifoSpec nof max) (fifoAllowed nof max) (fun k => { queue := qs k })
      (fun _ => {}) as

end

/-- The loops can count the messages with an `int`, `recv` can return the length of a message as an
`int`, and the size of the buffer is a `uint32_t`. -/
def QbuffFits (n m : Nat) : Prop := n < 2 ^ 31 ∧ m < 2 ^ 31 ∧ n * m < 2 ^ 32

instance (n m : Nat) : Decidable (QbuffFits n m) := inferInstanceAs (Decidable (_ ∧ _ ∧ _))

/-! ### What a queue and its users stand for -/

/-- The writer has memory, and `d` is in it. -/
structure DraftRep (n m : Nat) (q : Qbuff) (requested : Option Nat) (msgs : List Bytes)
    (d : Bytes) : Prop where
  room : msgs.length < n
  length : d.length = m
  requested : requested = some (q.wp * m)
  bytes : At q.buffer (q.wp * m) d

/-- The reader has a pointer to the message `x` of the queue. -/
def HeldRep (n m : Nat) (q : Qbuff) (popped : Option (Nat × Nat)) (msgs : List Bytes) (x : Bytes) :
    Prop :=
  ∃ i, msgs[i]? = some x ∧ popped = some (slotAt n q.rp i * m, x.length)

/-- The queue and the pointers of its users stand for the list. -/
structure UserRep (n m : Nat) (u : QbuffUser) (f : QbuffFifo) : Prop where
  rep : QbuffRep n m u.queue f.msgs
  draft : ∀ d, f.draft = some d → DraftRep n m u.queue u.requested f.msgs d
  held : ∀ x, f.held = some x → HeldRep n m u.queue u.popped f.msgs x

/-- The call of the users is defined, and it is what the list does. -/
def Follows (n m : Nat) (f : QbuffFifo) (c : QbuffCall) (result : Option (QbuffUser × QbuffOut)) :
    Prop :=
  ∃ u' out f' mem, result = some (u', out) ∧ mem.length = m ∧ f.call n m mem c = (f', out) ∧
    UserRep n m u' f'

namespace UserRep

variable {n m : Nat} {u : QbuffUser} {f : QbuffFifo} {x : Bytes} {rest : List Bytes}

/-- The memory does not matter for most calls. -/
theorem follows {c : QbuffCall} {result : Option (QbuffUser × QbuffOut)} {v : QbuffUser}
    {y : QbuffFifo × QbuffOut} (hresult : result = some (v, y.2))
    (hcall : f.call n m (List.replicate m 0) c = y) (h : UserRep n m v y.1) :
    Follows n m f c result :=
  ⟨v, y.2, y.1, _, hresult, List.length_replicate, hcall, h⟩

/-- A message is in the queue. The pointer of the reader stays good. -/
theorem put (h : UserRep n m u f) {q : Qbuff} (hrep : QbuffRep n m q (f.msgs ++ [x]))
    (hrp : q.rp = u.queue.rp) (requested : Option Nat) :
    UserRep n m { u with queue := q, requested := requested } (f.put x) where
  rep := hrep
  draft _ hd := by cases hd
  held y hy := by
    obtain ⟨i, hi, hpopped⟩ := h.held y hy
    have hlt := (List.getElem?_eq_some_iff.mp hi).1
    refine ⟨i, (List.getElem?_append_left hlt).trans hi, ?_⟩
    show u.popped = some (slotAt n q.rp i * m, y.length)
    rw [hrp, hpopped]

/-- The oldest message is not in the queue any more. The memory of the writer stays. -/
theorem drop (h : UserRep n m u f) (hn : n < 2 ^ 31) (hmsgs : f.msgs = x :: rest) :
    UserRep n m { u with queue := u.queue.release, popped := none } f.drop where
  rep := by
    have hrep := h.rep
    rw [hmsgs] at hrep
    show QbuffRep n m u.queue.release f.msgs.tail
    rw [hmsgs]
    exact hrep.release hn
  draft d hd := by
    have hdraft := h.draft d hd
    refine ⟨?_, hdraft.length, hdraft.requested, hdraft.bytes⟩
    have hroom := hdraft.room
    show f.msgs.tail.length < n
    rw [List.length_tail]
    omega
  held _ hx := by cases hx

/-! ### The writer -/

/-- `request` gives memory unless the queue is full, and the writer may write there. -/
theorem request (h : UserRep n m u f) : Follows n m f .request (u.call .request) := by
  have hrequest := h.rep.request
  by_cases hroom : f.msgs.length < n
  · rw [if_pos hroom] at hrequest
    have hin := slot_inside m h.rep.wp_lt
    obtain ⟨mem, hmem, hat⟩ := exists_at (show u.queue.wp * m + m ≤ u.queue.buffer.length by
      rw [h.rep.length_buffer]
      exact hin)
    refine ⟨{ u with requested := some (u.queue.wp * m) }, .flag true,
      { f with draft := some (f.draft.getD mem) }, mem, by rw [QbuffUser.call, hrequest], hmem,
      if_pos hroom, h.rep, ?_, h.held⟩
    intro d hd
    cases hdraft : f.draft with
    | none =>
      rw [hdraft] at hd
      obtain rfl := Option.some.inj hd
      exact ⟨hroom, hmem, rfl, hat⟩
    | some d' =>
      -- It has got this memory before.
      rw [hdraft] at hd
      obtain rfl := Option.some.inj hd
      have hold := h.draft _ hdraft
      exact ⟨hroom, hold.length, rfl, hold.bytes⟩
  · rw [if_neg hroom] at hrequest
    exact follows (by rw [QbuffUser.call, hrequest]) (if_neg hroom) h

/-- A write inside of that memory changes the draft only. -/
theorem write (h : UserRep n m u f) {off : Nat} {bytes : Bytes}
    (ha : f.Allowed n m (.write off bytes)) :
    Follows n m f (.write off bytes) (u.call (.write off bytes)) := by
  obtain ⟨hne, hlen⟩ := ha
  obtain ⟨d, hd⟩ := Option.ne_none_iff_exists'.mp hne
  have hdraft := h.draft d hd
  obtain ⟨buffer, hwrite, hrep⟩ := h.rep.writeMem hdraft.room hlen
  have hown := writeAt_of_inside (show Inside d.length (off, bytes) by
    rw [hdraft.length]
    exact hlen)
  refine follows (v := { u with queue := { u.queue with buffer := buffer } }) ?_ rfl ⟨hrep, ?_,
    h.held⟩
  · rw [QbuffUser.call, hdraft.requested, Option.bind_some, Qbuff.writeMem, hwrite]
    rfl
  · intro d' hd'
    have heq : writeAt d (off, bytes) = some d' := by
      rw [← hd']
      show _ = f.draft.bind _
      rw [hd]
      rfl
    exact ⟨hdraft.room, (length_writeAt heq).trans hdraft.length, hdraft.requested,
      hdraft.bytes.writeAt_within hwrite heq⟩

/-- `push` puts the draft in the queue. -/
theorem push (h : UserRep n m u f) (hn : n < 2 ^ 31) {len : Nat} (ha : f.Allowed n m (.push len)) :
    Follows n m f (.push len) (u.call (.push len)) := by
  obtain ⟨hne, hlen⟩ := ha
  obtain ⟨d, hd⟩ := Option.ne_none_iff_exists'.mp hne
  have hdraft := h.draft d hd
  have htake : (d.take len).length = len := by
    rw [List.length_take, hdraft.length]
    exact Nat.min_eq_left hlen
  have hcall : f.call n m (List.replicate m 0) (.push len) = (f.put (d.take len), .flag true) := by
    rw [QbuffFifo.call, hd]
    rfl
  have hrep := h.rep.push hn hdraft.room (htake.trans_le hlen) (hdraft.bytes.take len)
  rw [htake] at hrep
  exact follows rfl hcall (h.put hrep rfl none)

/-- What `send` does to a queue that has room. -/
theorem send_eq (h : UserRep n m u f) (hn : n < 2 ^ 31) (hroom : f.msgs.length < n)
    (hx : x.length ≤ m) :
    ∃ q, u.queue.writeMem (u.queue.wp * m) x = some q ∧
      ∀ requested, UserRep n m { u with queue := q.push x.length, requested := requested }
        (f.put x) := by
  have hlen : 0 + x.length ≤ m := by omega
  obtain ⟨buffer, hwrite, hrep⟩ := h.rep.writeMem hroom hlen
  rw [Nat.add_zero] at hwrite
  refine ⟨{ u.queue with buffer := buffer }, by rw [Qbuff.writeMem, hwrite]; rfl,
    fun requested => ?_⟩
  exact h.put (hrep.push hn hroom hx (At.writeAt_self hwrite)) rfl requested

/-- `send` copies a message that fits into the queue. -/
theorem send (h : UserRep n m u f) (hn : n < 2 ^ 31) : Follows n m f (.send x)
    (u.call (.send x)) := by
  have hrequest := h.rep.request
  by_cases hx : x.length ≤ m
  · by_cases hroom : f.msgs.length < n
    · rw [if_pos hroom] at hrequest
      obtain ⟨q, hwrite, hrep⟩ := h.send_eq hn hroom hx
      refine follows (y := (f.put x, .flag true)) ?_ (if_pos ⟨hx, hroom⟩) (hrep none)
      rw [QbuffUser.call, Qbuff.send, if_pos (by rw [h.rep.maxMsgSize]; exact hx), hrequest]
      dsimp only
      rw [hwrite]
      rfl
    · rw [if_neg hroom] at hrequest
      refine follows (v := u) (y := (f, .flag false)) ?_ (if_neg (fun hboth => hroom hboth.2)) h
      rw [QbuffUser.call, Qbuff.send, if_pos (by rw [h.rep.maxMsgSize]; exact hx), hrequest]
      rfl
  · refine follows (v := u) (y := (f, .flag false)) ?_ (if_neg (fun hboth => hx hboth.1)) h
    rw [QbuffUser.call, Qbuff.send, if_neg (by rw [h.rep.maxMsgSize]; exact hx)]
    rfl

/-! ### The reader -/

/-- `pop` gives a pointer to a message and takes nothing out. -/
theorem pop (h : UserRep n m u f) (hn : n < 2 ^ 31) {idx : Nat} (hidx : idx < n) :
    Follows n m f (.pop idx) (u.call (.pop idx)) := by
  have hpop := h.rep.popAt hn hidx
  cases hmsg : f.msgs[idx]? with
  | some x =>
    rw [hmsg, Option.map_some] at hpop
    refine follows (v := { u with popped := some (slotAt n u.queue.rp idx * m, x.length) })
      (y := ({ f with held := some x }, .popped (some x.length))) ?_ ?_ ⟨h.rep, h.draft,
        fun y hy => ?_⟩
    · rw [QbuffUser.call, hpop]
    · rw [QbuffFifo.call, hmsg]
    · obtain rfl := Option.some.inj hy
      exact ⟨idx, hmsg, rfl⟩
  | none =>
    rw [hmsg, Option.map_none] at hpop
    refine follows (v := u) (y := (f, .popped none)) ?_ ?_ h
    · rw [QbuffUser.call, hpop]
    · rw [QbuffFifo.call, hmsg]

/-- The reader reads the message that it has got. -/
theorem read (h : UserRep n m u f) (ha : f.Allowed n m .read) : Follows n m f .read
    (u.call .read) := by
  obtain ⟨x, hx⟩ := Option.ne_none_iff_exists'.mp ha
  obtain ⟨i, hi, hpopped⟩ := h.held x hx
  obtain ⟨hlt, rfl⟩ := List.getElem?_eq_some_iff.mp hi
  refine follows (v := u) (y := (f, .bytes f.msgs[i])) ?_ (by rw [QbuffFifo.call, hx]; rfl) h
  rw [QbuffUser.call, hpopped, Option.bind_some]
  dsimp only
  rw [h.rep.readAt_slot hlt]
  rfl

/-- `release` takes the oldest message out. -/
theorem release (h : UserRep n m u f) (hn : n < 2 ^ 31) (ha : f.Allowed n m .release) :
    Follows n m f .release (u.call .release) := by
  obtain ⟨x, rest, hmsgs⟩ := List.exists_cons_of_ne_nil ha
  exact follows rfl rfl (h.drop hn hmsgs)

/-- What `recv` does with a buffer that is large enough for the oldest message. -/
theorem recv_eq (h : UserRep n m u f) (hmsgs : f.msgs = x :: rest) {bufferSize : Nat}
    (hsize : x.length ≤ bufferSize) :
    u.call (.recv bufferSize)
      = some ({ u with queue := u.queue.release, popped := none },
        .received (toInt32 x.length) x) := by
  have hrep := h.rep
  rw [hmsgs] at hrep
  rw [QbuffUser.call, Qbuff.recv, Qbuff.receives, hrep.pop, List.head?_cons, Option.map_some]
  dsimp only
  rw [if_pos hsize, hrep.readAt_head, if_pos (decide_eq_true hsize)]
  rfl

/-- `recv` copies the oldest message and takes it out, if the buffer has room. -/
theorem recv (h : UserRep n m u f) (hn : n < 2 ^ 31) (hm : m < 2 ^ 31) (bufferSize : Nat) :
    Follows n m f (.recv bufferSize) (u.call (.recv bufferSize)) := by
  have hpop := h.rep.pop
  cases hmsgs : f.msgs with
  | nil =>
    rw [hmsgs] at hpop
    refine follows (v := u) (y := (f, .received 0 [])) ?_ (by rw [QbuffFifo.call, hmsgs]) h
    rw [QbuffUser.call, Qbuff.recv, Qbuff.receives, hpop]
    rfl
  | cons x rest =>
    rw [hmsgs, List.head?_cons, Option.map_some] at hpop
    -- A message that does not fit stays in the queue.
    by_cases hsize : x.length ≤ bufferSize
    · have hrep := h.rep
      rw [hmsgs] at hrep
      have hx := hrep.ring.head.length_le
      have hint : toInt32 x.length = x.length := if_pos (by omega)
      refine follows (y := (f.drop, .received x.length x)) ?_ ?_ (h.drop hn hmsgs)
      · rw [h.recv_eq hmsgs hsize, hint]
      · rw [QbuffFifo.call, hmsgs]
        exact if_pos hsize
    · refine follows (v := u) (y := (f, .received (-1) [])) ?_ ?_ h
      · rw [QbuffUser.call, Qbuff.recv, Qbuff.receives, hpop]
        dsimp only
        rw [if_neg hsize, if_neg (fun hd => hsize (of_decide_eq_true hd))]
        rfl
      · rw [QbuffFifo.call, hmsgs]
        exact if_neg hsize

/-! ### All calls of one queue -/

/-- `flush` takes all messages out. -/
theorem flush (h : UserRep n m u f) (hn : n < 2 ^ 31) (hsize : n * m < 2 ^ 32) :
    Follows n m f .flush (u.call .flush) := by
  obtain ⟨q, hflush, hrep⟩ :=
    qbuffRep_flush h.rep.ring.pos hn hsize h.rep.nofMessages h.rep.maxMsgSize
    h.rep.length_buffer
  have hnew : UserRep n m { queue := q } {} :=
    ⟨hrep, fun _ hd => (Option.some_ne_none _ hd.symm).elim, fun _ hx =>
      (Option.some_ne_none _ hx.symm).elim⟩
  refine follows ?_ rfl hnew
  rw [QbuffUser.call, hflush]
  rfl

/-- Every call that keeps to the protocol does what the list does. -/
theorem call (h : UserRep n m u f) (hfits : QbuffFits n m) (c : QbuffCall) (ha : f.Allowed n m c) :
    Follows n m f c (u.call c) := by
  obtain ⟨hn, hm, hsize⟩ := hfits
  cases c with
  | request => exact h.request
  | write off bytes => exact h.write ha
  | push len => exact h.push hn ha
  | pop idx => exact h.pop hn ha
  | read => exact h.read ha
  | release => exact h.release hn ha
  | send msg => exact h.send hn
  | recv bufferSize => exact h.recv hn hm bufferSize
  | flush => exact h.flush hn hsize
  -- The questions change nothing.
  | isempty =>
    have hempty : u.queue.isempty = decide (f.msgs = []) :=
      Bool.eq_iff_iff.mpr (h.rep.isempty_iff.trans (decide_eq_true_iff ..).symm)
    refine follows (v := u) ?_ rfl h
    rw [QbuffUser.call, hempty]
    rfl
  | isfull =>
    have hfull : u.queue.isfull = decide (n ≤ f.msgs.length) :=
      Bool.eq_iff_iff.mpr (h.rep.isfull_iff.trans (decide_eq_true_iff ..).symm)
    refine follows (v := u) ?_ rfl h
    rw [QbuffUser.call, hfull]
    rfl
  | pendingMsgs =>
    refine follows (v := u) ?_ rfl h
    rw [QbuffUser.call, h.rep.pendingMsgs hn]
    rfl
  | pendingData =>
    refine follows (v := u) ?_ rfl h
    rw [QbuffUser.call, h.rep.pendingData hn hsize]
    rfl
  | maxMsgs =>
    refine follows (v := u) ?_ rfl h
    rw [QbuffUser.call, Qbuff.maxMsgs, h.rep.nofMessages]
    rfl

end UserRep

/-! ### Several queues -/

section
variable {κ : Type} {nof max : κ → Nat} {us : κ → QbuffUser} {fs : κ → QbuffFifo}

/-- Each queue stands for its list. -/
def UsersRep (nof max : κ → Nat) (us : κ → QbuffUser) (fs : κ → QbuffFifo) : Prop :=
  ∀ k, UserRep (nof k) (max k) (us k) (fs k)

variable [DecidableEq κ]

/-- A change of one queue leaves the others as they were. -/
theorem UsersRep.update (h : UsersRep nof max us fs) {k : κ} {u : QbuffUser} {f : QbuffFifo}
    (hk : UserRep (nof k) (max k) u f) :
    UsersRep nof max (Function.update us k u) (Function.update fs k f) := by
  intro j
  rcases eq_or_ne j k with rfl | hne
  · rw [Function.update_self, Function.update_self]
    exact hk
  · rw [Function.update_of_ne hne, Function.update_of_ne hne]
    exact h j

/-- A message goes from one queue to another of the same message size. -/
theorem UsersRep.moveTo (h : UsersRep nof max us fs) (hn : ∀ k, nof k < 2 ^ 31) {src dst : κ}
    (ha : max dst = max src) :
    ∃ us', qbuffStep us (.moveTo src dst) = some (us', .done) ∧
      UsersRep nof max us' (moveFifo nof fs src dst) := by
  have hpop := (h src).rep.pop
  have hrequest := (h dst).rep.request
  rw [moveFifo]
  cases hmsgs : (fs src).msgs with
  | nil =>
    rw [hmsgs, List.head?_nil, Option.map_none] at hpop
    refine ⟨us, ?_, h⟩
    rw [qbuffStep, Qbuff.moveTo, hpop]
    rfl
  | cons x rest =>
    rw [hmsgs, List.head?_cons, Option.map_some] at hpop
    dsimp only
    split
    · rename_i hroom
      rw [if_pos hroom] at hrequest
      have hsrc := (h src).rep
      rw [hmsgs] at hsrc
      obtain ⟨q, hwrite, hput⟩ := (h dst).send_eq (hn dst) hroom (ha ▸ hsrc.ring.head.length_le)
      have hboth := h.update (hput none)
      -- The message is still the oldest one, also if the queue is moved to itself.
      have hhead : ∃ rest', (Function.update fs dst ((fs dst).put x) src).msgs = x :: rest' := by
        rcases eq_or_ne src dst with rfl | hne
        · rw [Function.update_self]
          exact ⟨rest ++ [x], congrArg (· ++ [x]) hmsgs⟩
        · rw [Function.update_of_ne hne]
          exact ⟨rest, hmsgs⟩
      obtain ⟨rest', hmsgs'⟩ := hhead
      refine ⟨_, ?_, hboth.update ((hboth src).drop (hn src) hmsgs')⟩
      rw [qbuffStep, Qbuff.moveTo, hpop]
      dsimp only
      rw [hrequest]
      dsimp only
      rw [hsrc.readAt_head, Option.bind_some, hwrite, Option.map_some, Option.map_some]
      refine congrArg (fun us' => some (us', QbuffOut.done)) (funext fun k => ?_)
      rcases eq_or_ne k src with rfl | hsrc'
      · rcases eq_or_ne k dst with rfl | hdst'
        · simp
        · simp [hdst']
      · rcases eq_or_ne k dst with rfl | hdst'
        · simp [hsrc']
        · simp [hsrc', hdst']
    · rename_i hfull
      rw [if_neg hfull] at hrequest
      refine ⟨us, ?_, h⟩
      rw [qbuffStep, Qbuff.moveTo, hpop]
      dsimp only
      rw [hrequest]
      rfl

/-- Every action that keeps to the protocol is a step of the lists. -/
theorem UsersRep.step (h : UsersRep nof max us fs) (hfits : ∀ k, QbuffFits (nof k) (max k))
    (a : QbuffAction κ)
    (ha : fifoAllowed nof max fs a) :
    ∃ us' out fs', qbuffStep us a = some (us', out) ∧ fifoSpec nof max fs a fs' out ∧
      UsersRep nof max us' fs' := by
  cases a with
  | on k c =>
    obtain ⟨u', out, f', mem, hresult, hmem, hcall, hrep⟩ := (h k).call (hfits k) c ha
    refine ⟨_, out, Function.update fs k f', ?_, ⟨mem, f', hmem, hcall, rfl⟩, h.update hrep⟩
    rw [qbuffStep, hresult]
    rfl
  | moveTo src dst =>
    obtain ⟨us', hstep, hrep⟩ := h.moveTo (fun k => (hfits k).1) ha
    exact ⟨us', .done, _, hstep, ⟨rfl, rfl⟩, hrep⟩

end

/-! ### New queues -/

/-- A new queue stands for the empty list. -/
theorem userRep_init {n m : Nat} (hpos : 1 ≤ n) (hn : n < 2 ^ 31) (hsize : n * m < 2 ^ 32) :
    ∃ q, Qbuff.init n m = some q ∧ UserRep n m { queue := q } {} := by
  obtain ⟨q, hinit, hrep⟩ := qbuffRep_init hpos hn hsize
  exact ⟨q, hinit, hrep, fun _ hd => (Option.some_ne_none _ hd.symm).elim,
    fun _ hx => (Option.some_ne_none _ hx.symm).elim⟩

/-! ### Sizes that do not fit -/

/-- A queue after `j` messages were sent, and none was received, whatever its sizes are. -/
structure Sent (n m j : Nat) (q : Qbuff) : Prop where
  nofMessages : q.nofMessages = n
  maxMsgSize : q.maxMsgSize = m
  length_buffer : q.buffer.length = n * m % 2 ^ 32
  wp : q.wp = j
  ptr : ∀ i, i < n → (q.packets i).ptr = i * m % 2 ^ 32
  free : ∀ i, j ≤ i → i < n → (q.packets i).valid = false

section
variable {n m j : Nat} {q q' : Qbuff} {msg : Bytes} {b : Bool}

/-- `init` returns for a number of messages that an `int` can count. -/
theorem lt_of_init (h : Qbuff.init n m = some q) : n < 2 ^ 31 := by
  obtain ⟨is, hcount, -⟩ := Option.map_eq_some_iff.mp h
  exact (countTo_eq_some_iff.mp hcount).1

/-- Nothing has been sent to a new queue. -/
theorem sent_init (h : Qbuff.init n m = some q) : Sent n m 0 q := by
  have hpackets := fun i (hi : i < n) => packets_of_flush h hi
  obtain ⟨is, -, rfl⟩ := Option.map_eq_some_iff.mp h
  exact ⟨rfl, rfl, List.length_replicate, rfl, fun i hi => congrArg Pkt.ptr (hpackets i hi),
    fun i _ hi => congrArg Pkt.valid (hpackets i hi)⟩

/-- If the next message can be sent, it is inside of the buffer. -/
theorem Sent.send (h : Sent n m j q) (hn : n < 2 ^ 32) (hj : j < n) (hlen : msg.length = m)
    (hsend : q.send msg = some (q', b)) :
    j * m % 2 ^ 32 + m ≤ n * m % 2 ^ 32 ∧ (j + 1 < n → Sent n m (j + 1) q') := by
  have hrequest : q.request = some (j * m % 2 ^ 32) := by
    rw [Qbuff.request, Qbuff.isfull, h.wp, h.free j (Nat.le_refl j) hj, h.ptr j hj]
    rfl
  rw [Qbuff.send, if_pos (by rw [h.maxMsgSize, hlen]), hrequest] at hsend
  obtain ⟨q₁, hwrite, heq⟩ := Option.map_eq_some_iff.mp hsend
  obtain ⟨buffer, hbuffer, rfl⟩ := Option.map_eq_some_iff.mp hwrite
  obtain ⟨rfl, rfl⟩ := Prod.mk.inj heq
  have hin := inside_of_writeAt hbuffer
  rw [Inside, h.length_buffer, hlen] at hin
  -- The place that was written is inside the buffer, and the write pointer goes to the next one.
  refine ⟨hin, fun hnext => ⟨h.nofMessages, h.maxMsgSize, ?_, ?_, fun i hi => ?_, fun i hji hi =>
    ?_⟩⟩
  · exact (length_writeAt hbuffer).trans h.length_buffer
  · have hadvance := Qbuff.advance_eq (q := { q with buffer := buffer }) (p := q.wp)
      (by rw [h.nofMessages]; exact hn) (by rw [h.nofMessages, h.wp]; exact hj)
    refine hadvance.trans ?_
    rw [h.nofMessages, h.wp, slotAt, Nat.mod_eq_of_lt hnext]
  · show (Function.update q.packets q.wp _ i).ptr = i * m % 2 ^ 32
    rcases eq_or_ne i q.wp with rfl | hne
    · rw [Function.update_self]
      exact h.ptr _ hi
    · rw [Function.update_of_ne hne]
      exact h.ptr i hi
  · show (Function.update q.packets q.wp _ i).valid = false
    have hwp := h.wp
    rw [Function.update_of_ne (by omega)]
    exact h.free i (by omega) hi

end

section
variable {κ : Type} [DecidableEq κ] {nof max : κ → Nat}

/-- Of `j` messages, `r` are still to be sent to queue `k`. -/
def ToSend (nof max : κ → Nat) (k : κ) (j r : Nat) (us : κ → QbuffUser) : Prop :=
  r ≤ j ∧ Sent (nof k) (max k) (j - r) (us k).queue

/-- A message of the largest size is sent, which leaves one less. -/
theorem ToSend.step {k : κ} {j r : Nat} {us us' : κ → QbuffUser} {out : QbuffOut}
    (h : ToSend nof max k j (r + 1) us) (hn : nof k < 2 ^ 32) (hj : j < nof k)
    (hstep : qbuffStep us (.on k (.send (List.replicate (max k) 0))) = some (us', out)) :
    ToSend nof max k j r us' := by
  obtain ⟨hle, hsent⟩ := h
  obtain ⟨⟨u, o⟩, hcall, heq⟩ := Option.map_eq_some_iff.mp hstep
  obtain ⟨rfl, -⟩ := Prod.mk.inj heq
  obtain ⟨⟨q, b⟩, hsend, heq'⟩ := Option.map_eq_some_iff.mp hcall
  obtain ⟨rfl, -⟩ := Prod.mk.inj heq'
  have hnext := (hsent.send hn (by omega) List.length_replicate hsend).2 (by omega)
  refine ⟨by omega, ?_⟩
  rw [Function.update_self, show j - r = j - (r + 1) + 1 by omega]
  exact hnext

/-- If the size of a buffer is no 32-bit number, one message after the other is sent, until one does
not stay inside of the buffer. -/
theorem size_lt_of_refine (h : QbuffsRefine nof max) (k : κ) (hmax : max k < 2 ^ 32) :
    nof k * max k < 2 ^ 32 := by
  obtain ⟨qs, hinit, href⟩ := h
  have hn := lt_of_init (hinit k)
  by_contra hge
  have hpos : 0 < max k := Nat.pos_of_ne_zero fun hzero => by
    rw [hzero] at hge
    omega
  -- The first message that ends behind `2 ^ 32` bytes.
  obtain ⟨j, hj⟩ : ∃ j, j = (2 ^ 32 - 1) / max k := ⟨_, rfl⟩
  have hstart : j * max k ≤ 2 ^ 32 - 1 := by
    rw [hj]
    exact Nat.div_mul_le_self ..
  have hend : 2 ^ 32 - 1 < j * max k + max k := by
    have hlt := Nat.lt_div_mul_add hpos (a := 2 ^ 32 - 1)
    rw [hj]
    exact hlt
  have hjn : j < nof k := Nat.lt_of_mul_lt_mul_right (a := max k) (by omega)
  have hallowed : ∀ fs, fifoAllowed nof max fs (.on k (.send (List.replicate (max k) 0))) := by
    intro fs
    show (List.replicate (max k) 0).length < 2 ^ 32
    rw [List.length_replicate]
    exact hmax
  have hfirst : ToSend nof max k j j fun k => { queue := qs k } := by
    refine ⟨Nat.le_refl j, ?_⟩
    rw [Nat.sub_self]
    exact sent_init (hinit k)
  obtain ⟨us, ⟨-, hsent⟩, ⟨us', out⟩, hstep⟩ := Refines.defined (I := ToSend nof max k j) hallowed
    (fun r us us' out h hstep => h.step (by omega) hjn hstep) j hfirst (href _)
  obtain ⟨⟨u, o⟩, hcall, -⟩ := Option.map_eq_some_iff.mp hstep
  obtain ⟨⟨q, b⟩, hsend, -⟩ := Option.map_eq_some_iff.mp hcall
  have hin := (hsent.send (by omega) (by omega) List.length_replicate hsend).1
  rw [Nat.sub_zero, Nat.mod_eq_of_lt (by omega)] at hin
  have := Nat.mod_lt (nof k * max k) (show 2 ^ 32 > 0 by decide)
  omega

/-- `recv` does not return a length of `2 ^ 31` or more. -/
theorem max_lt_of_refine (h : QbuffsRefine nof max) (k : κ) (hnof : 1 ≤ nof k)
    (hmax : max k < 2 ^ 32) :
    max k < 2 ^ 31 := by
  have hsize := size_lt_of_refine h k hmax
  obtain ⟨qs, hinit, href⟩ := h
  obtain ⟨q, hq, hrep⟩ := userRep_init hnof (lt_of_init (hinit k)) hsize
  obtain rfl := Option.some.inj ((hinit k).symm.trans hq)
  have hlen : (List.replicate (max k) (0 : UInt8)).length = max k := List.length_replicate
  generalize List.replicate (max k) (0 : UInt8) = msg at hlen
  obtain ⟨us, out, fs, hsend, hspec, hrest⟩ := href [.on k (.send msg), .on k (.recv (max k))]
    (show msg.length < 2 ^ 32 by omega)
  obtain ⟨us', out', fs', hrecv, hspec', -⟩ := hrest hmax
  -- What the lists do.
  obtain ⟨mem, f, -, hcall, rfl⟩ := hspec
  obtain ⟨mem', f', -, hcall', -⟩ := hspec'
  rw [QbuffFifo.call, if_pos ⟨by omega, hnof⟩] at hcall
  obtain ⟨rfl, rfl⟩ := Prod.mk.inj hcall
  rw [Function.update_self] at hcall'
  have hout : out' = .received msg.length msg := by
    rw [QbuffFifo.call] at hcall'
    exact (congrArg Prod.snd hcall').symm.trans (congrArg Prod.snd (if_pos (by omega)))
  -- What the queue does.
  obtain ⟨u, o, f, mem, hresult, -, hput, hrep'⟩ := hrep.send (x := msg) (lt_of_init (hinit k))
  rw [QbuffFifo.call, if_pos ⟨by omega, hnof⟩] at hput
  obtain ⟨rfl, rfl⟩ := Prod.mk.inj hput
  rw [qbuffStep, hresult] at hsend
  obtain ⟨rfl, -⟩ := Prod.mk.inj (Option.some.inj hsend)
  rw [qbuffStep, Function.update_self,
    hrep'.recv_eq rfl (show msg.length ≤ max k by omega)] at hrecv
  have hout' := (Prod.mk.inj (Option.some.inj hrecv)).2
  rw [hout, QbuffOut.received.injEq] at hout'
  have hint := hout'.1
  unfold toInt32 at hint
  split at hint
  · omega
  · omega

/-! ### Results -/

/-- New queues, whose users keep to the protocol, are bounded FIFOs exactly when their sizes fit. -/
theorem qbuffsRefine_iff (nof max : κ → Nat) (hnof : ∀ k, 1 ≤ nof k) (hmax : ∀ k, max k < 2 ^ 32) :
    QbuffsRefine nof max ↔ ∀ k, QbuffFits (nof k) (max k) := by
  constructor
  · intro h k
    refine ⟨?_, max_lt_of_refine h k (hnof k) (hmax k), size_lt_of_refine h k (hmax k)⟩
    obtain ⟨qs, hinit, -⟩ := h
    exact lt_of_init (hinit k)
  · intro hfits
    have hinit := fun k => userRep_init (hnof k) (hfits k).1 (hfits k).2.2
    choose qs hqs hrep using hinit
    have hall : UsersRep nof max (fun k => { queue := qs k }) fun _ => {} := hrep
    exact ⟨qs, hqs, fun as => Refines.of_sim (fun _ _ a h ha => UsersRep.step h hfits a ha) as hall⟩

/-- The queues of `pdu_queue`: 64 messages of at most 19200 bytes for each of 8 processes. -/
theorem qbuffsRefine_iff_pduQueue : QbuffsRefine (fun _ : Fin 8 => 64) (fun _ => 19200) :=
  (qbuffsRefine_iff _ _ (fun _ => by decide) (fun _ => by decide)).mpr fun _ => by decide

end

/-- The buffer for two messages of `2 ^ 31 + 1` bytes has two bytes, and a message of three is
written behind it. -/
theorem not_qbuffsRefine : ¬QbuffsRefine (fun _ : Unit => 2) (fun _ => 2 ^ 31 + 1) := by
  rintro ⟨qs, hinit, href⟩
  obtain ⟨us, out, fs, hstep, -⟩ := href [.on () (.send [1, 2, 3])]
    (show [1, 2, 3].length < 2 ^ 32 by decide)
  have hq := Option.some.inj (hinit ())
  have hsend : (qs ()).send [1, 2, 3] = none := by
    rw [← hq]
    decide
  rw [qbuffStep, QbuffUser.call, hsend] at hstep
  cases hstep

end SrsUE.Proofs.Common
