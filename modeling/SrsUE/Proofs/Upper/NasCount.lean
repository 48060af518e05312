import SrsUE.Lib.Run
import SrsUE.Upper.Nas

/-!
# `SrsUE.Proofs.Upper.NasCount`: when a NAS uplink COUNT is used twice under a key

An attach complete and a service request increment `count_ul` and then use it. A security mode
complete uses it as it is. So a COUNT is only used a second time by a security mode complete, and
under the same key only when the command derives a key that was used since `count_ul` changed, such
as a command that is repeated.

`step_cases` says what a step does to the messages and the COUNT. `Unused` is the invariant, and
`step_noReuse_iff` is the argument for one step. `along_noReuse_iff` is the result for a run, as
long as `count_ul` does not wrap.
-/

set_option autoImplicit false

namespace SrsUE.Upper

open SrsUE.Lib SrsUE.Rlc

/-! ### The messages that were sent -/

/-- The message behind the security header. -/
def UplinkMsg.secured : UplinkMsg → Option Secured
  | .attachRequest | .authenticationResponse _ | .securityModeReject => none
  | .securityModeComplete m | .attachComplete m | .serviceRequest m => some m

/-- The MAC of the message was computed with the COUNT whose low bits it carries as its sequence
number. A service request carries five bits of it, and two octets of the MAC. -/
def UplinkMsg.Numbered (F : SecurityFunctions) : UplinkMsg → Prop
  | .securityModeComplete m | .attachComplete m => ∃ rbId body,
      m.bytes = 0x27 ::
        List.ofFn (Nas.integrityGenerate F m.algo m.key m.count rbId
          (UInt8.ofNat m.count :: body)) ++ UInt8.ofNat m.count :: body
  | .serviceRequest m => ∃ second : UInt8, second.toNat % 32 = m.count % 32 ∧
      m.bytes = [0xC7, second] ++
        (List.ofFn (Nas.integrityGenerate F m.algo m.key m.count 0 [0xC7, second])).drop 2
  | .attachRequest | .authenticationResponse _ | .securityModeReject => True

namespace Nas

/-- The messages with a MAC, in the order they were sent. -/
def macked (s : Nas) : List Secured := (s.sent.filterMap UplinkMsg.secured).filter (·.isProtected)

/-- No two messages with a MAC under the same key carry the same COUNT. -/
def NoReuse (s : Nas) : Prop :=
  s.macked.Pairwise fun m m' => m.key = m'.key → m.count ≠ m'.count

/-- What is to hold of a state: no COUNT is used twice under a key, and each sequence number is
that of its MAC. -/
def CountsSound (F : SecurityFunctions) (s : Nas) : Prop :=
  s.NoReuse ∧ ∀ u ∈ s.sent, u.Numbered F

/-- The action increments `count_ul`. -/
def increments (s : Nas) : NasAction → Bool
  | .writePdu _ (.attachAccept msg) => msg.epsOnly && msg.pdnTypeIpv4
  | .writePdu _ _ => false
  | .notifyConnectionSetup => decide (s.state ≠ .deregistered)

/-- The integrity key that a security mode command derives when it is accepted. -/
def acceptedKey (F : SecurityFunctions) (s : Nas) : NasAction → Option (Octets 32)
  | .writePdu _ (.securityModeCommand cmd) =>
    if rejects cmd then none
    else some (s.usim.generateNasKeys F cmd.typeOfEea cmd.typeOfEia).2
  | _ => none

/-- `count_ul` does not wrap. -/
def NoWrap (s : Nas) (a : NasAction) : Prop := s.increments a = true → s.countUl + 1 < 2 ^ 32

/-- A command that is accepted derives a key that was not used since `count_ul` was incremented. -/
def FreshKey (F : SecurityFunctions) (s : Nas) (a : NasAction) : Prop :=
  ∀ key, s.acceptedKey F a = some key → key ∉ s.keysAtCount

/-- The sequence number of a service request. -/
theorem serviceRequest_seq (ksi count : Nat) :
    (UInt8.ofNat ((ksi % 8) <<< 5) ||| UInt8.ofNat (count % 32)).toNat % 32 = count % 32 := by
  have hksi : ksi % 8 < 8 := Nat.mod_lt _ (by decide)
  have hcount : count % 32 < 32 := Nat.mod_lt _ (by decide)
  generalize ksi % 8 = x at hksi
  generalize count % 32 = y at hcount
  have hx : (x <<< 5) % 32 = 0 := by
    rw [Nat.shiftLeft_eq]
    exact Nat.mul_mod_left x 32
  rw [UInt8.toNat_or, UInt8.toNat_ofNat', UInt8.toNat_ofNat', show 32 = 2 ^ 5 from rfl,
    Nat.or_mod_two_pow, Nat.mod_mod_of_dvd _ (by decide), Nat.mod_mod_of_dvd _ (by decide), hx,
    Nat.zero_or, Nat.mod_eq_of_lt hcount]

/-- A command that is accepted is for EIA1 or EIA2. -/
theorem isProtected_of_accepts {cmd : SecurityModeCommand} (h : rejects cmd = false) :
    (decide (cmd.typeOfEia = .eia1) || decide (cmd.typeOfEia = .eia2)) = true := by
  simp only [rejects, Bool.or_eq_false_iff, Bool.and_eq_false_iff, decide_eq_false_iff_not,
    ne_eq, Decidable.not_not] at h
  obtain ⟨⟨-, h2 | h1⟩, -⟩ := h
  · simp [h2]
  · simp [h1]

/-- What a step does: it sends nothing with a security header, it increments the COUNT and uses it,
or it uses it as it is, with the key of a security mode command. -/
theorem step_cases (F : SecurityFunctions) (s : Nas) (a : NasAction) :
    (s.increments a = false ∧ s.acceptedKey F a = none ∧ (s.step F a).countUl = s.countUl ∧
      (s.step F a).keysAtCount = s.keysAtCount ∧
      ((s.step F a).sent = s.sent ∨ ∃ u : UplinkMsg, u.secured = none ∧ u.Numbered F ∧
        (s.step F a).sent = s.sent ++ [u])) ∨
    (s.increments a = true ∧ s.acceptedKey F a = none ∧
      (s.step F a).countUl = add32 s.countUl 1 ∧
      ∃ u m, UplinkMsg.secured u = some m ∧ u.Numbered F ∧ m.count = add32 s.countUl 1 ∧
        (s.step F a).sent = s.sent ++ [u] ∧
        (s.step F a).keysAtCount = if m.isProtected then [m.key] else []) ∨
    (s.increments a = false ∧ (s.step F a).countUl = s.countUl ∧
      ∃ m, s.acceptedKey F a = some m.key ∧ m.count = s.countUl ∧ m.isProtected = true ∧
        (UplinkMsg.securityModeComplete m).Numbered F ∧
        (s.step F a).sent = s.sent ++ [.securityModeComplete m] ∧
        (s.step F a).keysAtCount = m.key :: s.keysAtCount) := by
  cases a with
  | notifyConnectionSetup =>
    by_cases hd : s.state = .deregistered
    · refine .inl ⟨by simp [increments, hd], rfl, ?_⟩
      simp only [step, notifyConnectionSetup, if_pos hd]
      exact ⟨rfl, rfl, .inr ⟨.attachRequest, rfl, trivial, rfl⟩⟩
    · refine .inr (.inl ⟨by simp [increments, hd], rfl, ?_⟩)
      simp only [step, notifyConnectionSetup, if_neg hd]
      exact ⟨rfl, .serviceRequest _, _, rfl, ⟨_, serviceRequest_seq s.ksi _, rfl⟩, rfl, rfl, rfl⟩
  | writePdu lcid pdu =>
    cases pdu with
    | attachAccept msg =>
      -- Only an accept for EPS services with an IPv4 address is answered.
      cases heps : msg.epsOnly with
      | false =>
        refine .inl ⟨by simp [increments, heps], rfl, ?_⟩
        simp [step, writePdu, parseAttachAccept, heps]
      | true =>
        cases hip : msg.pdnTypeIpv4 with
        | false =>
          refine .inl ⟨by simp [increments, hip], rfl, ?_⟩
          simp [step, writePdu, parseAttachAccept, heps, hip]
        | true =>
          refine .inr (.inl ⟨by simp [increments, heps, hip], rfl, ?_⟩)
          simp only [step, writePdu, parseAttachAccept, heps, hip, if_true]
          exact ⟨rfl, .attachComplete _, _, rfl, ⟨_, _, rfl⟩, rfl, rfl, rfl⟩
    | authenticationRequest rand autn mcc mnc =>
      refine .inl ⟨rfl, rfl, ?_⟩
      simp only [step, writePdu, parseAuthenticationRequest]
      split
      · exact ⟨rfl, rfl, .inr ⟨.authenticationResponse _, rfl, trivial, rfl⟩⟩
      · exact ⟨rfl, rfl, .inl rfl⟩
    | securityModeCommand cmd =>
      cases hrej : rejects cmd with
      | true =>
        refine .inl ⟨rfl, by simp [acceptedKey, hrej], ?_⟩
        simp only [step, writePdu, parseSecurityModeCommand, hrej, if_true]
        exact ⟨rfl, rfl, .inr ⟨.securityModeReject, rfl, trivial, rfl⟩⟩
      | false =>
        -- The answer takes `count_ul` as the message before left it.
        have hprot := isProtected_of_accepts hrej
        refine .inr (.inr ⟨rfl, ?_⟩)
        simp only [step, writePdu, parseSecurityModeCommand, hrej, Bool.false_eq_true, if_false]
        refine ⟨rfl, _, ?_, ?_, ?_, ?_, rfl, ?_⟩
        · simp [acceptedKey, hrej, secure]
        · rfl
        · exact hprot
        · exact ⟨_, _, rfl⟩
        · exact if_pos hprot
    | _ => exact .inl ⟨rfl, rfl, rfl, rfl, .inl rfl⟩

/-! ### The invariant -/

/-- The protected messages are among those sent. -/
theorem macked_of_sent {s s' : Nas} (h : s'.sent = s.sent) : s'.macked = s.macked := by
  rw [macked, h, macked]

/-- A message without protection adds none. -/
theorem macked_append_none {s s' : Nas} {u : UplinkMsg} (hu : u.secured = none)
    (h : s'.sent = s.sent ++ [u]) : s'.macked = s.macked := by
  simp [macked, h, List.filterMap_append, hu]

/-- A protected message adds itself. -/
theorem macked_append_some {s s' : Nas} {u : UplinkMsg} {m : Secured} (hu : u.secured = some m)
    (h : s'.sent = s.sent ++ [u]) :
    s'.macked = s.macked ++ if m.isProtected then [m] else [] := by
  simp only [macked, h, List.filterMap_append, List.filter_append, List.filterMap_cons, hu,
    List.filterMap_nil, List.filter_cons, List.filter_nil]

/-- No COUNT was used twice so far, none lies above `count_ul`, and the keys used at `count_ul` are
those that are kept. -/
structure Unused (F : SecurityFunctions) (s : Nas) : Prop where
  sound : s.CountsSound F
  le : ∀ m ∈ s.macked, m.count ≤ s.countUl
  keys : ∀ key, key ∈ s.keysAtCount ↔ ∃ m ∈ s.macked, m.key = key ∧ m.count = s.countUl

/-- A message that is sent with a MAC repeats no COUNT exactly when none that was sent under its key
has its COUNT. -/
theorem noReuse_append_iff {s s' : Nas} (h : s.NoReuse) {m : Secured}
    (hm : s'.macked = s.macked ++ [m]) :
    s'.NoReuse ↔ ∀ m' ∈ s.macked, m'.key = m.key → m'.count ≠ m.count := by
  rw [NoReuse, hm, List.pairwise_append]
  constructor
  · exact fun hp m' hm' => hp.2.2 m' hm' m (List.mem_singleton_self m)
  · intro hall
    refine ⟨h, List.pairwise_singleton _ _, fun m' hm' k hk => ?_⟩
    obtain rfl := List.mem_singleton.mp hk
    exact hall m' hm'

/-- One more message that is numbered. -/
theorem numbered_append {F : SecurityFunctions} {s s' : Nas} {u : UplinkMsg}
    (h : ∀ v ∈ s.sent, v.Numbered F) (hu : u.Numbered F) (hs : s'.sent = s.sent ++ [u]) :
    ∀ v ∈ s'.sent, v.Numbered F := by
  intro v hv
  rw [hs] at hv
  obtain hold | hnew := List.mem_append.mp hv
  · exact h v hold
  · obtain rfl := List.mem_singleton.mp hnew
    exact hu

/-- A step that sends nothing with a security header. -/
theorem Unused.quiet {F : SecurityFunctions} {s s' : Nas} (h : s.Unused F)
    (hcount : s'.countUl = s.countUl) (hkeys : s'.keysAtCount = s.keysAtCount)
    (hmacked : s'.macked = s.macked) (hnum : ∀ v ∈ s'.sent, v.Numbered F) : s'.Unused F where
  sound := ⟨by rw [NoReuse, hmacked]; exact h.sound.1, hnum⟩
  le m hm := by
    rw [hcount]
    exact h.le m (hmacked ▸ hm)
  keys key := by rw [hkeys, hmacked, hcount, h.keys key]

/-- The COUNT is incremented without wrapping and then used: no earlier message has it. -/
theorem Unused.increment {F : SecurityFunctions} {s s' : Nas} (h : s.Unused F) {u : UplinkMsg}
    {m : Secured} (hu : u.secured = some m) (hcount : s'.countUl = s.countUl + 1)
    (hm : m.count = s.countUl + 1) (hsent : s'.sent = s.sent ++ [u]) (hnum : u.Numbered F)
    (hkeys : s'.keysAtCount = if m.isProtected then [m.key] else []) : s'.Unused F := by
  have hmacked := macked_append_some hu hsent
  have hall := numbered_append h.sound.2 hnum hsent
  cases hp : m.isProtected with
  | false =>
    -- The new COUNT is spent, and no key was used at it.
    simp only [hp, Bool.false_eq_true, if_false, List.append_nil] at hmacked hkeys
    refine ⟨⟨by rw [NoReuse, hmacked]; exact h.sound.1, hall⟩, fun k hk => ?_, fun key => ?_⟩
    · rw [hcount]
      exact Nat.le_succ_of_le (h.le k (hmacked ▸ hk))
    · rw [hkeys, hmacked, hcount]
      refine ⟨fun hk => (by cases hk), ?_⟩
      rintro ⟨k, hk, -, heq⟩
      exact absurd (h.le k hk) (by omega)
  | true =>
    simp only [hp, if_true] at hmacked hkeys
    refine ⟨⟨(noReuse_append_iff h.sound.1 hmacked).mpr fun k hk _ => ?_, hall⟩, fun k hk => ?_,
      fun key => ?_⟩
    · have := h.le k hk
      omega
    · rw [hmacked, List.mem_append, List.mem_singleton] at hk
      obtain hold | rfl := hk
      · have := h.le k hold
        omega
      · omega
    · rw [hkeys, hmacked, hcount, List.mem_singleton]
      constructor
      · rintro rfl
        exact ⟨m, List.mem_append_right _ (List.mem_singleton_self m), rfl, hm⟩
      · rintro ⟨k, hk, rfl, heq⟩
        rw [List.mem_append, List.mem_singleton] at hk
        obtain hold | rfl := hk
        · exact absurd (h.le k hold) (by omega)
        · rfl

/-- The COUNT is used as it is: it repeats none exactly when the key was not used at it. -/
theorem Unused.reuse {F : SecurityFunctions} {s s' : Nas} (h : s.Unused F) {m : Secured}
    (hcount : s'.countUl = s.countUl) (hm : m.count = s.countUl) (hp : m.isProtected = true)
    (hsent : s'.sent = s.sent ++ [.securityModeComplete m])
    (hnum : (UplinkMsg.securityModeComplete m).Numbered F)
    (hkeys : s'.keysAtCount = m.key :: s.keysAtCount) :
    (s'.CountsSound F ↔ m.key ∉ s.keysAtCount) ∧ (m.key ∉ s.keysAtCount → s'.Unused F) := by
  have hmacked := macked_append_some (u := .securityModeComplete m) rfl hsent
  simp only [hp, if_true] at hmacked
  have hall := numbered_append h.sound.2 hnum hsent
  have hiff : s'.CountsSound F ↔ m.key ∉ s.keysAtCount := by
    rw [CountsSound, and_iff_left hall, noReuse_append_iff h.sound.1 hmacked, h.keys, hm]
    simp only [not_exists, not_and, ne_eq]
  refine ⟨hiff, fun hfresh => ⟨hiff.mpr hfresh, fun k hk => ?_, fun key => ?_⟩⟩
  · rw [hmacked, List.mem_append, List.mem_singleton] at hk
    obtain hold | rfl := hk
    · exact hcount ▸ h.le k hold
    · exact hcount ▸ hm.le
  · rw [hkeys, hmacked, hcount, List.mem_cons, h.keys key]
    constructor
    · rintro (rfl | ⟨k, hk, hkey⟩)
      · exact ⟨m, List.mem_append_right _ (List.mem_singleton_self m), rfl, hm⟩
      · exact ⟨k, List.mem_append_left _ hk, hkey⟩
    · rintro ⟨k, hk, rfl, heq⟩
      rw [List.mem_append, List.mem_singleton] at hk
      obtain hold | rfl := hk
      · exact .inr ⟨k, hold, rfl, heq⟩
      · exact .inl rfl

/-- In a step in which `count_ul` does not wrap, no COUNT is used twice under a key exactly when the
key of an accepted command is fresh. -/
theorem Unused.step {F : SecurityFunctions} {s : Nas} (h : s.Unused F) {a : NasAction}
    (hwrap : s.NoWrap a) :
    ((s.step F a).CountsSound F ↔ s.FreshKey F a) ∧
      (s.FreshKey F a → (s.step F a).Unused F) := by
  -- Nothing secured is sent, or the COUNT is incremented first, or it is used as it is.
  obtain ⟨-, hnone, hcount, hkeys, hsent⟩ | ⟨hinc, hnone, hcount, u, m, hu, hnum, hm, hsent,
    hkeys⟩ |
    ⟨-, hcount, m, hkey, hm, hp, hnum, hsent, hkeys⟩ := step_cases F s a
  · have hquiet : (s.step F a).Unused F := by
      obtain hsame | ⟨u, hu, hnum, hnew⟩ := hsent
      · exact h.quiet hcount hkeys (macked_of_sent hsame) (hsame ▸ h.sound.2)
      · exact h.quiet hcount hkeys (macked_append_none hu hnew)
          (numbered_append h.sound.2 hnum hnew)
    exact ⟨iff_of_true hquiet.sound (fun key hk => by rw [hnone] at hk; cases hk),
      fun _ => hquiet⟩
  · have hadd : add32 s.countUl 1 = s.countUl + 1 := add32_of_lt (hwrap hinc)
    rw [hadd] at hcount hm
    have hnext := h.increment hu hcount hm hsent hnum hkeys
    exact ⟨iff_of_true hnext.sound (fun key hk => by rw [hnone] at hk; cases hk),
      fun _ => hnext⟩
  · have hfresh : s.FreshKey F a ↔ m.key ∉ s.keysAtCount := by
      rw [FreshKey, hkey]
      exact ⟨fun hall => hall _ rfl, fun hnot key hk => Option.some.inj hk ▸ hnot⟩
    rw [hfresh]
    exact h.reuse hcount hm hp hsent hnum hkeys

/-! ### Runs -/

/-- Each step is defined. -/
def next (F : SecurityFunctions) (s : Nas) (a : NasAction) : Option Nas := some (s.step F a)

/-- In a run without wraps the counts are sound exactly when each key is fresh. -/
theorem Unused.along_iff {F : SecurityFunctions} {s : Nas} (h : s.Unused F) (as : List NasAction)
    (hwrap : Along (next F) (fun s a _ => s.NoWrap a) s as) :
    Along (next F) (fun _ _ s' => s'.CountsSound F) s as ↔
      Along (next F) (fun s a _ => s.FreshKey F a) s as := by
  induction as generalizing s with
  | nil => exact Iff.rfl
  | cons a as ih =>
    obtain ⟨hw, hrest⟩ := hwrap _ rfl
    obtain ⟨hiff, hnext⟩ := h.step hw
    constructor
    · intro hal s' hs'
      obtain rfl := Option.some.inj hs'
      obtain ⟨hr, hr'⟩ := hal _ rfl
      exact ⟨hiff.mp hr, (ih (hnext (hiff.mp hr)) hrest).mp hr'⟩
    · intro hal s' hs'
      obtain rfl := Option.some.inj hs'
      obtain ⟨hc, hc'⟩ := hal _ rfl
      exact ⟨hiff.mpr hc, (ih (hnext hc) hrest).mpr hc'⟩

end Nas

/-- Nothing was sent at first. -/
theorem Nas.unused_new (F : SecurityFunctions) (usim : Usim) (transactionId : UInt8) (ksi : Nat)
    (kNasEnc kNasInt : Octets 32) (cipherAlgo : CipheringAlgorithmId)
    (integAlgo : IntegrityAlgorithmId) :
    (Nas.new usim transactionId ksi kNasEnc kNasInt cipherAlgo integAlgo).Unused F where
  sound := ⟨List.Pairwise.nil, fun u hu => by cases hu⟩
  le m hm := by cases hm
  keys key := ⟨fun h => (by cases h), fun ⟨m, hm, _⟩ => (by cases hm)⟩

/-- **When a COUNT is used twice.** In a run in which `count_ul` does not wrap, no two messages with
a MAC under the same key carry the same COUNT exactly when each security mode command that is
accepted derives a key that was not used since `count_ul` was last incremented. -/
theorem Nas.along_noReuse_iff (F : SecurityFunctions) (usim : Usim) (transactionId : UInt8)
    (ksi : Nat) (kNasEnc kNasInt : Octets 32) (cipherAlgo : CipheringAlgorithmId)
    (integAlgo : IntegrityAlgorithmId) (as : List NasAction)
    (hwrap : Along (Nas.next F) (fun s a _ => s.NoWrap a)
      (Nas.new usim transactionId ksi kNasEnc kNasInt cipherAlgo integAlgo) as) :
    Along (Nas.next F) (fun _ _ s' => s'.CountsSound F)
        (Nas.new usim transactionId ksi kNasEnc kNasInt cipherAlgo integAlgo) as ↔
      Along (Nas.next F) (fun s a _ => s.FreshKey F a)
        (Nas.new usim transactionId ksi kNasEnc kNasInt cipherAlgo integAlgo) as :=
  (Nas.unused_new F usim transactionId ksi kNasEnc kNasInt cipherAlgo integAlgo).along_iff as hwrap

/-- An attach in which the COUNT is used once by a security mode complete and once by the attach
complete. -/
theorem Nas.along_noReuse_attach :
    Along (Nas.next default) (fun _ _ s' => s'.CountsSound default)
      (Nas.new default 0 0 default default .eea0 .eia0)
      [.writePdu 1 (.securityModeCommand ⟨0, true, .eea0, .eia2, false⟩),
        .writePdu 1 (.attachAccept ⟨true, none, true, 0, 5, none⟩)] := by
  refine (Nas.along_noReuse_iff default default 0 0 default default .eea0 .eia0 _ ?_).mpr ?_
  · intro s' hs'
    obtain rfl := Option.some.inj hs'
    refine ⟨fun hinc => (by cases hinc), fun s' hs' => ?_⟩
    obtain rfl := Option.some.inj hs'
    exact ⟨fun _ => by decide, trivial⟩
  · -- The command is the first to derive a key, and nothing else does.
    intro s' hs'
    obtain rfl := Option.some.inj hs'
    refine ⟨fun _ _ hmem => (by cases hmem), fun s' hs' => ?_⟩
    obtain rfl := Option.some.inj hs'
    exact ⟨fun _ hkey => (by cases hkey), trivial⟩

/-- A security mode command that comes twice is answered twice with the same COUNT. -/
theorem Nas.not_along_noReuse :
    ¬Along (Nas.next default) (fun _ _ s' => s'.CountsSound default)
      (Nas.new default 0 0 default default .eea0 .eia0)
      [.writePdu 1 (.securityModeCommand ⟨0, true, .eea0, .eia2, false⟩),
        .writePdu 1 (.securityModeCommand ⟨0, true, .eea0, .eia2, false⟩)] := by
  intro h
  have hfresh :=
    ((Nas.unused_new default default 0 0 default default .eea0 .eia0).along_iff _ ?_).mp h
  · obtain ⟨-, hsecond⟩ := hfresh _ rfl
    obtain ⟨hnot, -⟩ := hsecond _ rfl
    exact hnot _ rfl (List.mem_cons_self ..)
  · intro s' hs'
    obtain rfl := Option.some.inj hs'
    refine ⟨fun hinc => (by cases hinc), fun s' hs' => ?_⟩
    obtain rfl := Option.some.inj hs'
    exact ⟨fun hinc => (by cases hinc), trivial⟩

end SrsUE.Upper
