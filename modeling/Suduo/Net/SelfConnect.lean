/-
# Self-connection detection

`sockets::is_self_connect` of `net/SocketOpt.cpp`.  The two addresses of a socket are stored into two
`sockaddr_in6` on the stack and compared where they lie: an IPv4 address takes the first bytes of the
structure, and its port and address are compared as words.  Of an IPv6 address the port is compared
as a word and the rest by `memcmp`, which is given the size of the whole structure and starts behind
its first eight bytes: it goes on over the scope id and eight bytes past the end.

The stack is a `Memory`; what was there before is part of the input, and so is where the two
structures are.  `self_connect_exact` says for which of these inputs the answer is right, and for which
addresses it is the same whatever else the memory holds.
-/
import Mathlib.Data.Vector.Basic
import Suduo.Lib.Endian
import Suduo.Lib.Memory

namespace Suduo.Sockets

open Lib Memory

/-! ## 1. Addresses in memory -/

def afInet : Nat := 2

def afInet6 : Nat := 10

/-- `n` bytes. -/
abbrev Bytes (n : Nat) := List.Vector Byte n

/-- `sockaddr_in`; port and address in the order of the network. -/
structure SockaddrIn where
  sinPort : Bytes 2
  sinAddr : Bytes 4
  deriving DecidableEq

/-- `sockaddr_in6`. -/
structure SockaddrIn6 where
  sin6Port : Bytes 2
  sin6Flowinfo : Bytes 4
  sin6Addr : Bytes 16
  sin6ScopeId : Bytes 4
  deriving DecidableEq

/-- An address as the kernel has it. -/
inductive SockName
  | inet (a : SockaddrIn)
  | inet6 (a : SockaddrIn6)
  deriving DecidableEq

/-- `sizeof(sockaddr_in6)`. -/
def sizeofSockaddrIn6 : Nat := 28

/-- Where `sin6_addr` is in its structure. -/
def sin6AddrOffset : Nat := 8

/-- The structure the kernel copies out; the family is a word of the host. -/
def SockName.bytes (host : Endian) : SockName → List Byte
  | .inet a => host.store 2 afInet ++ a.sinPort.toList ++ a.sinAddr.toList ++ List.replicate 8 0
  | .inet6 a => host.store 2 afInet6 ++ a.sin6Port.toList ++ a.sin6Flowinfo.toList ++
      a.sin6Addr.toList ++ a.sin6ScopeId.toList

def SockName.isInet6 : SockName → Bool
  | .inet _ => false
  | .inet6 _ => true

/-- Family, IP address and port. -/
def SockName.endpoint : SockName → Nat × List Byte × List Byte
  | .inet a => (afInet, a.sinAddr.toList, a.sinPort.toList)
  | .inet6 a => (afInet6, a.sin6Addr.toList, a.sin6Port.toList)

/-- A connected socket: both its ends are of its family. -/
structure Sock where
  localName : SockName
  peerName : SockName
  family : localName.isInet6 = peerName.isInet6

/-! ## 2. The code -/

variable (host : Endian)

/-- `getsockname` and `getpeername`, given `addr_len`. -/
def storeName (mem : Memory) (p : Nat) (name : SockName) (addrLen : Nat) : Memory :=
  mem.write p ((name.bytes host).take addrLen)

/-- `get_local_addr`, into the variable at `p`. -/
def getLocalAddr (sock : Sock) (p : Nat) (mem : Memory) : Memory :=
  storeName host mem p sock.localName sizeofSockaddrIn6

/-- `get_peer_addr`. -/
def getPeerAddr (sock : Sock) (p : Nat) (mem : Memory) : Memory :=
  storeName host mem p sock.peerName sizeofSockaddrIn6

/-- The stack frame of `is_self_connect`: where its two variables are.  They do not overlap, and
nothing else is known. -/
structure Frame where
  localAddr : Nat
  peerAddr : Nat
  apart : localAddr + sizeofSockaddrIn6 ≤ peerAddr ∨ peerAddr + sizeofSockaddrIn6 ≤ localAddr

/-- The word of `n` bytes at `p`. -/
def word (mem : Memory) (p n : Nat) : Nat := host.load (mem.read p n)

/-- The memory that is compared. -/
def named (frame : Frame) (sock : Sock) (stack : Memory) : Memory :=
  getPeerAddr host sock frame.peerAddr (getLocalAddr host sock frame.localAddr stack)

/-- `is_self_connect`, on a stack that holds anything. -/
def isSelfConnect (frame : Frame) (sock : Sock) (stack : Memory) : Bool :=
  let mem := named host frame sock stack
  let l := frame.localAddr
  let p := frame.peerAddr
  if word host mem l 2 = afInet then
    word host mem (l + 2) 2 == word host mem (p + 2) 2 &&
      word host mem (l + 4) 4 == word host mem (p + 4) 4
  else if word host mem l 2 = afInet6 then
    word host mem (l + 2) 2 == word host mem (p + 2) 2 &&
      memcmp (mem.read (l + sin6AddrOffset) sizeofSockaddrIn6)
        (mem.read (p + sin6AddrOffset) sizeofSockaddrIn6) == 0
  else false

/-! ## 3. What the structures hold -/

variable {host} {mem stack : Memory} {p q n : Nat} {name : SockName} {frame : Frame} {sock : Sock}

theorem length_bytes_le (host : Endian) (name : SockName) :
    (name.bytes host).length ≤ sizeofSockaddrIn6 := by
  cases name <;> simp [SockName.bytes, sizeofSockaddrIn6]

theorem storeName_eq (host : Endian) (mem : Memory) (p : Nat) (name : SockName) :
    storeName host mem p name sizeofSockaddrIn6 = mem.write p (name.bytes host) := by
  rw [storeName, List.take_of_length_le (length_bytes_le host name)]

/-- The second structure is stored beside the first, so both are there afterwards. -/
theorem named_has (host : Endian) (frame : Frame) (sock : Sock) (stack : Memory) :
    (named host frame sock stack).Has frame.localAddr (sock.localName.bytes host) ∧
      (named host frame sock stack).Has frame.peerAddr (sock.peerName.bytes host) := by
  have hl := length_bytes_le host sock.localName
  have hp := length_bytes_le host sock.peerName
  have hapart := frame.apart
  rw [named, getPeerAddr, getLocalAddr, storeName_eq, storeName_eq]
  refine ⟨?_, has_write _ _ _⟩
  rw [Has, read_write_apart (by omega)]
  exact has_write _ _ _

/-- The fields of a `sockaddr_in` stand in memory where the structure has them. -/
theorem has_inet {a : SockaddrIn} (h : mem.Has p ((SockName.inet a).bytes host)) :
    word host mem p 2 = afInet ∧ mem.read (p + 2) 2 = a.sinPort.toList ∧
      mem.read (p + 4) 4 = a.sinAddr.toList := by
  simp only [SockName.bytes, has_append, List.length_append, Endian.length_store,
    List.Vector.toList_length] at h
  obtain ⟨⟨⟨hfam, hport⟩, haddr⟩, -⟩ := h
  rw [Has, Endian.length_store] at hfam
  rw [Has, List.Vector.toList_length] at hport haddr
  refine ⟨?_, hport, haddr⟩
  rw [word, hfam, Endian.load_store host (by decide)]

/-- The fields of a `sockaddr_in6` that the comparison comes to. -/
theorem has_inet6 {a : SockaddrIn6} (h : mem.Has p ((SockName.inet6 a).bytes host)) :
    word host mem p 2 = afInet6 ∧ mem.read (p + 2) 2 = a.sin6Port.toList ∧
      mem.read (p + 8) 16 = a.sin6Addr.toList ∧ mem.read (p + 24) 4 = a.sin6ScopeId.toList := by
  simp only [SockName.bytes, has_append, List.length_append, Endian.length_store,
    List.Vector.toList_length] at h
  obtain ⟨⟨⟨⟨hfam, hport⟩, -⟩, haddr⟩, hscope⟩ := h
  rw [Has, Endian.length_store] at hfam
  rw [Has, List.Vector.toList_length] at hport haddr hscope
  refine ⟨?_, hport, haddr, hscope⟩
  rw [word, hfam, Endian.load_store host (by decide)]

/-- Words are compared by their bytes, which is to compare the words. -/
theorem word_eq (host : Endian) (mem : Memory) (p q n : Nat) :
    word host mem p n = word host mem q n ↔ mem.read p n = mem.read q n :=
  Endian.load_inj host (by rw [length_read, length_read])

/-! ## 4. The answer -/

/-- The bytes behind an IPv6 address that `memcmp` also looks at: the scope id and eight more,
which are past the end of the structure. -/
def behind (mem : Memory) (p : Nat) : List Byte := mem.read (p + 24) 12

/-- The socket is connected to itself. -/
def Sock.SelfConnected (sock : Sock) : Prop := sock.localName.endpoint = sock.peerName.endpoint

instance : DecidablePred Sock.SelfConnected := fun _ => inferInstanceAs (Decidable (_ = _))

/-- The answer for two IPv4 addresses is right: the port and the address are all that is
compared. -/
theorem isSelfConnect_inet {a b : SockaddrIn} (hl : sock.localName = .inet a)
    (hp : sock.peerName = .inet b) :
    isSelfConnect host frame sock stack = true ↔ sock.SelfConnected := by
  obtain ⟨hasl, hasp⟩ := named_has host frame sock stack
  rw [hl] at hasl
  rw [hp] at hasp
  obtain ⟨hfam, hport, haddr⟩ := has_inet hasl
  obtain ⟨-, hport', haddr'⟩ := has_inet hasp
  rw [Sock.SelfConnected, hl, hp]
  simp only [isSelfConnect, hfam, ↓reduceIte, Bool.and_eq_true, beq_iff_eq, word_eq, hport, hport',
    haddr, haddr', SockName.endpoint, Prod.mk.injEq, true_and]
  exact and_comm

/-- The answer for two IPv6 addresses is right if the bytes behind them agree, and no if they do
not. -/
theorem isSelfConnect_inet6 {a b : SockaddrIn6} (hl : sock.localName = .inet6 a)
    (hp : sock.peerName = .inet6 b) :
    isSelfConnect host frame sock stack = true ↔ sock.SelfConnected ∧
      behind (named host frame sock stack) frame.localAddr =
        behind (named host frame sock stack) frame.peerAddr := by
  obtain ⟨hasl, hasp⟩ := named_has host frame sock stack
  rw [hl] at hasl
  rw [hp] at hasp
  obtain ⟨hfam, hport, haddr, -⟩ := has_inet6 hasl
  obtain ⟨-, hport', haddr', -⟩ := has_inet6 hasp
  have hne : afInet6 ≠ afInet := by decide
  have hmemcmp : ∀ q, (named host frame sock stack).read (q + sin6AddrOffset) sizeofSockaddrIn6 =
      (named host frame sock stack).read (q + 8) 16 ++ behind (named host frame sock stack) q :=
    fun q => read_add _ (q + 8) 16 12
  rw [Sock.SelfConnected, hl, hp]
  simp only [isSelfConnect, hfam, if_neg hne, ↓reduceIte, Bool.and_eq_true, beq_iff_eq, word_eq, hport,
    hport', SockName.endpoint, Prod.mk.injEq, true_and]
  rw [memcmp_eq_zero (by rw [length_read, length_read]), hmemcmp, hmemcmp, haddr, haddr']
  constructor
  · rintro ⟨hport, heq⟩
    have hlen : a.sin6Addr.toList.length = b.sin6Addr.toList.length := by
      rw [List.Vector.toList_length, List.Vector.toList_length]
    obtain ⟨haddr, hbehind⟩ := List.append_inj heq hlen
    exact ⟨⟨haddr, hport⟩, hbehind⟩
  · rintro ⟨⟨haddr, hport⟩, hbehind⟩
    exact ⟨hport, by rw [haddr, hbehind]⟩

/-- Of a frame with eight bytes between the structures, `memcmp` sees the scope ids and what was on
the stack before. -/
theorem behind_named {a b : SockaddrIn6} (host : Endian) (stack : Memory)
    (hl : sock.localName = .inet6 a) (hp : sock.peerName = .inet6 b)
    (hroom : frame.localAddr + 36 ≤ frame.peerAddr) :
    behind (named host frame sock stack) frame.localAddr =
        a.sin6ScopeId.toList ++ stack.read (frame.localAddr + 28) 8 ∧
      behind (named host frame sock stack) frame.peerAddr =
        b.sin6ScopeId.toList ++ stack.read (frame.peerAddr + 28) 8 := by
  obtain ⟨hasl, hasp⟩ := named_has host frame sock stack
  rw [hl] at hasl
  rw [hp] at hasp
  obtain ⟨-, -, -, hscope⟩ := has_inet6 hasl
  obtain ⟨-, -, -, hscope'⟩ := has_inet6 hasp
  have hlen := length_bytes_le host sock.localName
  have hlen' := length_bytes_le host sock.peerName
  unfold sizeofSockaddrIn6 at hlen hlen'
  have hout : ∀ q, frame.localAddr + 28 ≤ q → q + 8 ≤ frame.peerAddr ∨ frame.peerAddr + 28 ≤ q →
      (named host frame sock stack).read q 8 = stack.read q 8 := by
    intro q hq hq'
    rw [named, getPeerAddr, getLocalAddr, storeName_eq, storeName_eq, read_write_apart (by omega),
      read_write_apart (by omega)]
  have hsplit : ∀ q, behind (named host frame sock stack) q =
      (named host frame sock stack).read (q + 24) 4 ++ (named host frame sock stack).read (q + 28) 8 :=
    fun q => read_add _ (q + 24) 4 8
  rw [hsplit, hsplit, hscope, hscope', hout _ (by omega) (by omega), hout _ (by omega) (by omega)]
  exact ⟨rfl, rfl⟩

/-- The family decides which of the two comparisons is made. -/
theorem Sock.cases (sock : Sock) :
    (∃ a b, sock.localName = .inet a ∧ sock.peerName = .inet b) ∨
      ∃ a b, sock.localName = .inet6 a ∧ sock.peerName = .inet6 b := by
  have hfam := sock.family
  cases hl : sock.localName with
  | inet a =>
    cases hp : sock.peerName with
    | inet b => exact .inl ⟨a, b, rfl, rfl⟩
    | inet6 b => rw [hl, hp] at hfam; cases hfam
  | inet6 a =>
    cases hp : sock.peerName with
    | inet b => rw [hl, hp] at hfam; cases hfam
    | inet6 b => exact .inr ⟨a, b, rfl, rfl⟩

/-- Address and port fields are the same; the other fields, the frame and the stack need not be. -/
def Sock.SameEndpoints (sock sock' : Sock) : Prop :=
  sock.localName.endpoint = sock'.localName.endpoint ∧ sock.peerName.endpoint = sock'.peerName.endpoint

/-- Nothing but the address and port fields of this socket decides. -/
def Independent (host : Endian) (sock : Sock) : Prop :=
  ∀ sock', sock.SameEndpoints sock' → ∀ frame frame' stack stack',
    isSelfConnect host frame sock stack = isSelfConnect host frame' sock' stack'

theorem Sock.SameEndpoints.selfConnected {sock sock' : Sock} (h : sock.SameEndpoints sock') :
    sock.SelfConnected ↔ sock'.SelfConnected := by
  rw [Sock.SelfConnected, Sock.SelfConnected, h.1, h.2]

theorem endpoint_isInet6 (name : SockName) : name.isInet6 = true ↔ name.endpoint.1 = afInet6 := by
  cases name <;> simp [SockName.isInet6, SockName.endpoint, afInet, afInet6]

theorem Sock.SameEndpoints.isInet6 {sock sock' : Sock} (h : sock.SameEndpoints sock') :
    sock.localName.isInet6 = true ↔ sock'.localName.isInet6 = true := by
  rw [endpoint_isInet6, endpoint_isInet6, h.1]

/-- **When the answer is right**, for one frame and one stack: always, but for an IPv6 socket
connected to itself of which the bytes behind the two addresses differ. -/
theorem answer_exact (host : Endian) (frame : Frame) (sock : Sock) (stack : Memory) :
    (isSelfConnect host frame sock stack = true ↔ sock.SelfConnected) ↔
      (sock.localName.isInet6 = true → sock.SelfConnected →
        behind (named host frame sock stack) frame.localAddr =
          behind (named host frame sock stack) frame.peerAddr) := by
  rcases sock.cases with ⟨a, b, hl, hp⟩ | ⟨a, b, hl, hp⟩
  · have hno : ¬ sock.localName.isInet6 = true := by rw [hl]; exact Bool.false_ne_true
    exact iff_of_true (isSelfConnect_inet hl hp) fun h6 => absurd h6 hno
  · have h6 : sock.localName.isInet6 = true := by rw [hl]; rfl
    rw [isSelfConnect_inet6 hl hp, and_iff_left_iff_imp, forall_prop_of_true h6]

/-- Where the answer can only be one, nothing else decides. -/
theorem independent_of_not (h : ¬ (sock.localName.isInet6 = true ∧ sock.SelfConnected)) :
    Independent host sock := by
  intro sock' hsame frame frame' stack stack'
  have h' : ¬ (sock'.localName.isInet6 = true ∧ sock'.SelfConnected) := by
    rwa [hsame.isInet6, hsame.selfConnected] at h
  have hexact := (answer_exact host frame sock stack).mpr fun h6 hself => absurd ⟨h6, hself⟩ h
  have hexact' := (answer_exact host frame' sock' stack').mpr fun h6 hself => absurd ⟨h6, hself⟩ h'
  rw [Bool.eq_iff_iff, hexact, hexact', hsame.selfConnected]

/-- An IPv6 socket that is connected to itself: the byte behind the structure decides, and it can
be chosen. -/
theorem not_independent (h6 : sock.localName.isInet6 = true) (hself : sock.SelfConnected) :
    ¬ Independent host sock := by
  intro hind
  rcases sock.cases with ⟨a, b, hl, -⟩ | ⟨a, b, hl, -⟩
  · rw [hl] at h6
    cases h6
  · -- the same end twice, on two stacks that differ in one byte
    let twice : Sock := ⟨.inet6 a, .inet6 a, rfl⟩
    let frame : Frame := ⟨0, 64, .inl (by decide)⟩
    have hsame : sock.SameEndpoints twice := ⟨congrArg _ hl, hself.symm.trans (congrArg _ hl)⟩
    have htrue : isSelfConnect host frame twice (fun _ => 0) = true := by
      obtain ⟨hb, hb'⟩ : behind (named host frame twice fun _ => 0) 0 = _ ∧ _ :=
        behind_named host (fun _ => 0) rfl rfl (by decide)
      refine (isSelfConnect_inet6 (a := a) (b := a) rfl rfl).mpr ⟨rfl, ?_⟩
      rw [hb, hb']
      rfl
    have hfalse : isSelfConnect host frame twice (fun i => if i = 28 then 1 else 0) = false := by
      obtain ⟨hb, hb'⟩ : behind (named host frame twice fun i => if i = 28 then 1 else 0) 0 = _ ∧ _ :=
        behind_named host (fun i => if i = 28 then 1 else 0) rfl rfl (by decide)
      refine Bool.eq_false_iff.mpr fun htrue => ?_
      have heq := ((isSelfConnect_inet6 (a := a) (b := a) rfl rfl).mp htrue).2
      rw [hb, hb'] at heq
      exact absurd (List.append_cancel_left heq) (by decide)
    have h₁ := hind twice hsame frame frame (fun _ => 0) (fun _ => 0)
    have h₂ := hind twice hsame frame frame (fun _ => 0) (fun i => if i = 28 then 1 else 0)
    rw [h₂, hfalse] at h₁
    rw [htrue] at h₁
    cases h₁

/-- **When self-connection detection is exact.**  The answer is right on a stack if and only if
the socket is not an IPv6 socket connected to itself, or the scope ids and the eight bytes behind
each structure agree; and it depends on nothing but addresses and ports in the first case only.
A wrong answer is always a no, so it is a self-connection that is taken for a connection. -/
theorem self_connect_exact (host : Endian) (sock : Sock) :
    (∀ (frame : Frame) (stack : Memory),
      (isSelfConnect host frame sock stack = true ↔ sock.SelfConnected) ↔
        (sock.localName.isInet6 = true → sock.SelfConnected →
          behind (named host frame sock stack) frame.localAddr =
            behind (named host frame sock stack) frame.peerAddr)) ∧
    (Independent host sock ↔ ¬ (sock.localName.isInet6 = true ∧ sock.SelfConnected)) := by
  refine ⟨fun frame stack => answer_exact host frame sock stack, ?_, independent_of_not⟩
  exact fun hind h => not_independent h.1 h.2 hind

/-- `::1`, port 5000. -/
def loopback6 : SockaddrIn6 where
  sin6Port := ⟨[0x13, 0x88], rfl⟩
  sin6Flowinfo := ⟨[0, 0, 0, 0], rfl⟩
  sin6Addr := ⟨[0, 0, 0, 0, 0, 0, 0, 0, 0, 0, 0, 0, 0, 0, 0, 1], rfl⟩
  sin6ScopeId := ⟨[0, 0, 0, 0], rfl⟩

/-- Connected to itself, and not found to be: one byte of the stack behind the first structure. -/
theorem self_connect_missed :
    ∃ (frame : Frame) (sock : Sock) (stack : Memory),
      sock.SelfConnected ∧ isSelfConnect .little frame sock stack = false :=
  ⟨⟨0, 32, .inl (by decide)⟩, ⟨.inet6 loopback6, .inet6 loopback6, rfl⟩,
    fun i => if i = 28 then 1 else 0, rfl, by decide⟩

end Suduo.Sockets
