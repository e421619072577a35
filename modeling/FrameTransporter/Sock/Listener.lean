import FrameTransporter.Log.Record

/-! # Lists of listening sockets

A listen value is a path, a port, or an address or host name with a port. Each one
is resolved to addresses, and a listener is appended for every address that can be
opened. The count of a whole array takes the answer for a value that has no
addresses, which is -1, as a number of listeners.
-/

namespace FrameTransporter

namespace Listener

/-- The address families that the code tells apart. -/
inductive Family
  | AF_UNSPEC
  | AF_UNIX
  | AF_INET
  | AF_INET6
  | other (n : ℕ)
  deriving DecidableEq, Repr

/-- `struct addrinfo`, without the link to the next one. -/
structure AddrInfo where
  family : Family
  socktype : ℤ
  protocol : ℤ
  addr : List UInt8
  deriving DecidableEq, Repr

end Listener

/-- `struct ft_listener`, with the descriptor of its watcher. -/
structure Listener extends Listener.AddrInfo where
  data : ℕ
  fd : ℕ
  listening : Bool
  backlog : ℤ
  acceptEvents : ℕ
  deriving DecidableEq, Repr

namespace Listener

/-- What the system answers while a listener is opened: whether `getnameinfo` fails with
`EAI_FAMILY`, the descriptor of the socket, and whether it can be kept to IPv6 and bound. -/
structure Opening where
  unsupported : Bool
  socket : Option ℕ
  ipv6Only : Bool
  bind : Bool

/-- What the system and the C library answer while one listen value is handled. The numbers count
the copies of texts and the addresses of the value. -/
structure System where
  regcomp : String → Bool
  regexec : String → List UInt8 → Option (List (ℕ × ℕ))
  strdup : ℕ → Bool
  getaddrinfo : Option (List UInt8) → List UInt8 → AddrInfo → Option (List AddrInfo)
  listNodeNew : ℕ → Bool
  opening : ℕ → Opening
  backlog : ℤ

/-- `ft_listener_init`, null if it returns false. -/
def listenerInit (a : Opening) (backlog : ℤ) (ai : AddrInfo) : Option Listener :=
  if ai.family ≠ .AF_UNIX ∧ a.unsupported = true then none
  else
    match a.socket with
    | none => none
    | some fd =>
      if ai.family = .AF_INET6 ∧ a.ipv6Only = false then none
      else if a.bind = false then none
      else some { ai with data := 0, fd, listening := false, backlog, acceptEvents := 0 }

section Patterns

def PORT : String :=
  "([0-9]{1,4}|[1-5][0-9]{4}|6[0-4][0-9]{3}|65[0-4][0-9]{2}|655[0-2][0-9]|6553[0-5])"

def OCTET : String := "(25[0-5]|(2[0-4]|1{0,1}[0-9]){0,1}[0-9])"

def IPV4 : String := "(" ++ OCTET ++ "\\.){3,3}" ++ OCTET

def HEX : String := "[0-9a-fA-F]{1,4}"

def IPV6 : String :=
  "(" ++ HEX ++ ":){7,7}" ++ HEX ++ "|(" ++ HEX ++ ":){1,7}:|(" ++ HEX ++ ":){1,6}:" ++ HEX ++
  "|(" ++ HEX ++ ":){1,5}(:" ++ HEX ++ "){1,2}|(" ++ HEX ++ ":){1,4}(:" ++ HEX ++ "){1,3}|(" ++
  HEX ++ ":){1,3}(:" ++ HEX ++ "){1,4}|(" ++ HEX ++ ":){1,2}(:" ++ HEX ++ "){1,5}|" ++ HEX ++
  ":((:" ++ HEX ++ "){1,6})|:((:" ++ HEX ++ "){1,7}|:)|fe80:(:[0-9a-fA-F]{0,4}){0,4}%" ++
  "[0-9a-zA-Z]{1,}|::(ffff(:0{1,4}){0,1}:){0,1}" ++ IPV4 ++ "|(" ++ HEX ++ ":){1,4}:" ++ IPV4

/-- The patterns for a port, an IPv4 and an IPv6 address with a port, and a host with a port. -/
def portOnly : String := "^" ++ PORT ++ "$"

def ipv4Port : String := "^(" ++ IPV4 ++ "):" ++ PORT ++ "$"

def ipv6Port : String := "^\\[(" ++ IPV6 ++ ")\\]:" ++ PORT ++ "$"

def hostPort : String := "^([^:]*):" ++ PORT ++ "$"

end Patterns

/-- What a listen value asks for, where a text is null if it could not be copied. -/
structure Target where
  family : Family
  addr : Option (List UInt8)
  port : Option (List UInt8)

variable (sys : System)

/-- `regcomp`, which is asserted to succeed, and `regexec`. -/
def regex (pattern : String) (value : List UInt8) : Except Fault (Option (List (ℕ × ℕ))) :=
  if sys.regcomp pattern = false then .error (.abort .regcomp) else .ok (sys.regexec pattern value)

/-- The copy number `k` of a text. -/
def copy (k : ℕ) (text : List UInt8) : Option (List UInt8) :=
  if sys.strdup k = true then some text else none

/-- The part of a value that a group of a pattern matched. -/
def group (value : List UInt8) (groups : List (ℕ × ℕ)) (k : ℕ) : List UInt8 :=
  let (so, eo) := groups.getD k (0, 0)
  (value.drop so).take (eo - so)

/-- The text behind the last colon, which is asserted to exist. -/
def afterColon (value : List UInt8) : Except Fault (List UInt8) :=
  if 58 ∈ value then .ok (value.reverse.takeWhile (· ≠ 58)).reverse
  else .error (.abort .colonNotNull)

/-- The part of `ft_listener_list_extend_auto` up to its label. The result is null if the value
has none of the formats. -/
def target (value : List UInt8) : Except Fault (Option Target) := do
  if value.head? = some 47 ∨ value.head? = some 46 then
    return some ⟨.AF_UNIX, copy sys 1 value, copy sys 0 []⟩
  else
    match ← regex sys portOnly value with
    | some m => return some ⟨.AF_UNSPEC, copy sys 1 [42], copy sys 0 (group value m 1)⟩
    | none =>
      match ← regex sys ipv4Port value with
      | some m => return some ⟨.AF_INET, copy sys 0 (group value m 1), copy sys 1 (group value m 7)⟩
      | none =>
        match ← regex sys ipv6Port value with
        | some m =>
          let port ← afterColon value
          return some ⟨.AF_INET6, copy sys 0 (group value m 1), copy sys 1 port⟩
        | none =>
          match ← regex sys hostPort value with
          | some m =>
            let port ← afterColon value
            return some ⟨.AF_UNSPEC, copy sys 0 (group value m 1), copy sys 1 port⟩
          | none => return none

/-- `ft_listener_list_extend_by_addrinfo`, from the address number `k` on and with the count so
far. -/
def extendByAddrinfo (data : ℕ) :
    ℕ → List AddrInfo → ℤ → List Listener → Except Fault (ℤ × List Listener)
  | _, [], rc, list => .ok (rc, list)
  | k, rp :: rest, rc, list =>
    if sys.listNodeNew k = false then extendByAddrinfo data (k + 1) rest rc list
    else
      match listenerInit (sys.opening k) sys.backlog rp with
      | none => extendByAddrinfo data (k + 1) rest rc list
      | some listener =>
        match Log.addInt rc 1 with
        | none => .error .misuse
        | some rc => extendByAddrinfo data (k + 1) rest rc (list ++ [{ listener with data }])

/-- The addresses that `ft_listener_list_extend` takes for a host and a port: a path of the length
that `struct sockaddr_un` has room for, or what `getaddrinfo` answers. -/
def addresses (family : Family) (socktype : ℤ) (host port : List UInt8) : Option (List AddrInfo) :=
  if family = .AF_UNIX then some [⟨family, socktype, 0, host.take 106⟩]
  else sys.getaddrinfo (if host = [42] then none else some host) port ⟨family, socktype, 0, []⟩

/-- `ft_listener_list_extend`. -/
def extend (family : Family) (socktype : ℤ) (host port : List UInt8) (data : ℕ)
    (list : List Listener) : Except Fault (ℤ × List Listener) :=
  match addresses sys family socktype host port with
  | none => .ok (-1, list)
  | some res => extendByAddrinfo sys data 0 res 0 list

/-- `ft_listener_list_extend_auto`. -/
def extendAuto (socktype : ℤ) (value : List UInt8) (data : ℕ) (list : List Listener) :
    Except Fault (ℤ × List Listener) := do
  match ← target sys value with
  | none => return (-1, list)
  | some t =>
    match t.addr, t.port with
    | none, _ => throw (.abort .addrNotNull)
    | some _, none => throw (.abort .portNotNull)
    | some addr, some port => extend sys t.family socktype addr port data list

/-- The loop of `ft_listener_list_extend_autov` from the value number `i` on, with the count so
far. -/
def extendLoop (sys : ℕ → System) (socktype : ℤ) (data : ℕ) :
    ℕ → List (List UInt8) → ℤ → List Listener → Except Fault (ℤ × List Listener)
  | _, [], count, list => .ok (count, list)
  | i, value :: values, count, list => do
    let (rc, list) ← extendAuto (sys i) socktype value data list
    match Log.addInt count rc with
    | none => throw .misuse
    | some count => extendLoop sys socktype data (i + 1) values count list

/-- `ft_listener_list_extend_autov`, where the array may be null. -/
def extendAutov (sys : ℕ → System) (socktype : ℤ) (values : Option (List (List UInt8))) (data : ℕ)
    (list : List Listener) : Except Fault (ℤ × List Listener) :=
  match values with
  | none => .ok (0, list)
  | some values => extendLoop sys socktype data 0 values 0 list

/-- The value has one of the formats, and its host has addresses. -/
def Resolves (sys : System) (socktype : ℤ) (value : List UInt8) : Prop :=
  ∃ t addr port res, target sys value = .ok (some t) ∧ t.addr = some addr ∧ t.port = some port ∧
    addresses sys t.family socktype addr port = some res

section Counts

variable {sys : System} {socktype : ℤ} {value : List UInt8} {data : ℕ} {list list' : List Listener}
  {rc count : ℤ}

/-- The loop over the addresses counts the listeners that it appends. -/
theorem extendByAddrinfo_count {k : ℕ} {res : List AddrInfo} {rc' : ℤ}
    (h : extendByAddrinfo sys data k res rc list = .ok (rc', list')) :
    ∃ added, list' = list ++ added ∧ rc' = rc + added.length := by
  induction res generalizing k rc list with
  | nil =>
    cases h
    exact ⟨[], by simp, by simp⟩
  | cons rp rest ih =>
    rw [extendByAddrinfo] at h
    split_ifs at h
    · exact ih h
    · cases hinit : listenerInit (sys.opening k) sys.backlog rp with
      | none =>
        rw [hinit] at h
        exact ih h
      | some listener =>
        rw [hinit] at h
        dsimp only at h
        cases hadd : Log.addInt rc 1 with
        | none =>
          rw [hadd] at h
          cases h
        | some rc₁ =>
          rw [hadd] at h
          obtain ⟨rfl, -⟩ := Log.addInt_eq_some.mp hadd
          obtain ⟨added, rfl, rfl⟩ := ih h
          refine ⟨{ listener with data } :: added, by simp, ?_⟩
          rw [List.length_cons]
          push_cast
          ring

/-- A value that resolves is answered by the number of listeners that were appended, and any
other by -1. -/
theorem extendAuto_count (h : extendAuto sys socktype value data list = .ok (rc, list')) :
    ∃ added, list' = list ++ added ∧ (Resolves sys socktype value ∧ rc = added.length ∨
      ¬Resolves sys socktype value ∧ rc = -1 ∧ added = []) := by
  unfold extendAuto at h
  cases ht : target sys value with
  | error e =>
    rw [ht] at h
    cases h
  | ok t =>
    rw [ht] at h
    cases t with
    | none =>
      cases h
      refine ⟨[], by simp, Or.inr ⟨?_, rfl, rfl⟩⟩
      rintro ⟨t, _, _, _, h, -⟩
      rw [ht] at h
      cases h
    | some t =>
      obtain ⟨family, addr, port⟩ := t
      cases addr with
      | none => cases h
      | some addr =>
        cases port with
        | none => cases h
        | some port =>
          change extend sys family socktype addr port data list = _ at h
          unfold extend at h
          cases hres : addresses sys family socktype addr port with
          | none =>
            rw [hres] at h
            cases h
            refine ⟨[], by simp, Or.inr ⟨?_, rfl, rfl⟩⟩
            rintro ⟨t, addr', port', res, h, ha, hp, hr⟩
            rw [ht] at h
            cases h
            cases ha
            cases hp
            rw [hres] at hr
            cases hr
          | some res =>
            rw [hres] at h
            obtain ⟨added, rfl, hrc⟩ := extendByAddrinfo_count h
            refine ⟨added, rfl, Or.inl ⟨⟨_, addr, port, res, ht, rfl, rfl, hres⟩, ?_⟩⟩
            rw [hrc, zero_add]

/-- The loop over the values counts one less for each value that does not resolve. -/
theorem extendLoop_count {sys : ℕ → System} {i : ℕ} {values : List (List UInt8)} {count' : ℤ}
    (h : extendLoop sys socktype data i values count list = .ok (count', list')) :
    ∃ added, list' = list ++ added ∧ count' ≤ count + added.length ∧
      (count' = count + added.length ↔
        ∀ k value, values[k]? = some value → Resolves (sys (i + k)) socktype value) := by
  induction values generalizing i count list with
  | nil =>
    cases h
    exact ⟨[], by simp, by simp, by simp⟩
  | cons value values ih =>
    rw [extendLoop] at h
    cases hauto : extendAuto (sys i) socktype value data list with
    | error e =>
      rw [hauto] at h
      cases h
    | ok r =>
      obtain ⟨rc, list₁⟩ := r
      rw [hauto] at h
      change (match Log.addInt count rc with
        | none => throw Fault.misuse
        | some count => extendLoop sys socktype data (i + 1) values count list₁) = _ at h
      cases hadd : Log.addInt count rc with
      | none =>
        rw [hadd] at h
        cases h
      | some count₁ =>
        rw [hadd] at h
        obtain ⟨rfl, -⟩ := Log.addInt_eq_some.mp hadd
        obtain ⟨added₁, rfl, hcounted⟩ := extendAuto_count hauto
        obtain ⟨added₂, rfl, hle, hiff⟩ := ih h
        have hlength : ((added₁ ++ added₂).length : ℤ) = added₁.length + added₂.length := by
          rw [List.length_append]
          push_cast
          rfl
        refine ⟨added₁ ++ added₂, by simp, ?_⟩
        rw [hlength]
        rcases hcounted with ⟨hres, rfl⟩ | ⟨hres, rfl, rfl⟩
        · refine ⟨by omega, ?_⟩
          rw [← add_assoc, hiff]
          constructor
          · rintro h (_ | k) v hv
            · obtain rfl := Option.some.inj hv
              exact hres
            · have hi : i + 1 + k = i + (k + 1) := by omega
              exact hi ▸ h k v hv
          · intro h k v hv
            have hi : i + 1 + k = i + (k + 1) := by omega
            exact hi ▸ h (k + 1) v hv
        · rw [List.length_nil, Nat.cast_zero, zero_add]
          refine ⟨by omega, fun h => ?_, fun h => absurd (h 0 value rfl) hres⟩
          omega

/-- The count that is returned is the number of listeners that were appended exactly when every
value of the array resolves. -/
theorem extendAutov_count_iff {sys : ℕ → System} {values : Option (List (List UInt8))}
    (h : extendAutov sys socktype values data list = .ok (count, list')) :
    ((list'.length : ℤ) - list.length = count) ↔
      ∀ i value, (values.getD [])[i]? = some value → Resolves (sys i) socktype value := by
  cases values with
  | none =>
    cases h
    simp
  | some values =>
    obtain ⟨added, rfl, -, hiff⟩ := extendLoop_count h
    simp only [zero_add] at hiff
    rw [Option.getD_some, ← hiff, List.length_append]
    push_cast
    constructor <;> intro h <;> omega

end Counts

section Examples

/-- A system that opens every address and knows no host. -/
def pathsOnly : System where
  regcomp _ := true
  regexec _ _ := none
  strdup _ := true
  getaddrinfo _ _ _ := none
  listNodeNew _ := true
  opening _ := ⟨false, some 3, true, true⟩
  backlog := 128

/-- A system with the next free descriptor that knows the port 80 and has three addresses for it,
the second of which is in use. -/
def portInUse (fd : ℕ) : System where
  regcomp _ := true
  regexec _ value := if value = Log.ascii "80" then some [(0, 2), (0, 2)] else none
  strdup _ := true
  getaddrinfo _ _ hints := some [⟨.AF_INET, hints.socktype, 6, [0, 80, 127, 0, 0, 1]⟩,
    ⟨.AF_INET, hints.socktype, 6, [0, 80, 10, 0, 0, 1]⟩, ⟨.AF_INET6, hints.socktype, 6, [0, 80]⟩]
  listNodeNew _ := true
  opening k := ⟨false, some (fd + min k 1), true, k ≠ 1⟩
  backlog := 128

/-- A path and a port with several addresses. -/
theorem extendAutov_count_port :
    ((3 : ℕ) : ℤ) - (0 : ℕ) = 3 ↔ ∀ (i : ℕ) (value : List UInt8),
      [Log.ascii "/s", Log.ascii "80"][i]? = some value → Resolves (portInUse (3 + i)) 1 value := by
  have h : extendAutov (fun i => portInUse (3 + i)) 1 (some [Log.ascii "/s", Log.ascii "80"]) 0 [] =
      .ok (3, [⟨⟨.AF_UNIX, 1, 0, Log.ascii "/s"⟩, 0, 3, false, 128, 0⟩,
        ⟨⟨.AF_INET, 1, 6, [0, 80, 127, 0, 0, 1]⟩, 0, 4, false, 128, 0⟩,
        ⟨⟨.AF_INET6, 1, 6, [0, 80]⟩, 0, 5, false, 128, 0⟩]) := by decide
  exact extendAutov_count_iff h

/-- With a path and a value of no format one listener is appended, and the count is zero. -/
theorem not_extendAutov_count : ¬∀ (sys : ℕ → System) (socktype : ℤ)
    (values : Option (List (List UInt8))) (data : ℕ) (list list' : List Listener) (count : ℤ),
    extendAutov sys socktype values data list = .ok (count, list') →
      (list'.length : ℤ) - list.length = count := by
  intro h
  have hcount := h (fun _ => pathsOnly) 1 (some [Log.ascii "/s", Log.ascii "bad"]) 0 []
    [⟨⟨.AF_UNIX, 1, 0, Log.ascii "/s"⟩, 0, 3, false, 128, 0⟩] 0 rfl
  exact absurd hcount (by decide)

end Examples

end Listener

end FrameTransporter
