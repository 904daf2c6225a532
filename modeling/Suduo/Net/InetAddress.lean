/-
# Addresses and their text

`net/InetAddress` keeps a `sockaddr_in` or a `sockaddr_in6` and prints it into arrays of 64
characters.  `inet_ntop` and `inet_pton` are the system's: `InetText` is what the code relies on,
and `canonical` one pair of functions that has it.

Every array is long enough for every text.  But `sockets::to_Ip` does not pass on the size it is given:
`inet_ntop` gets `addr_len`, which is the size of a `sockaddr_in6`, 28.  It is enough for every IPv4
address, and for the IPv6 addresses of at most 27 characters; of the others the array holds what
`inet_ntop` happens to leave (`address_text_exact`).
-/
import Suduo.Lib.CharArray
import Suduo.Lib.IpText
import Suduo.Net.ConnectionName
import Suduo.Net.SelfConnect

namespace Suduo

open Lib CharArray Sockets

/-! ## 1. The system's side -/

/-- `inet_ntop` and `inet_pton`.  The text of an address is its canonical one, and reading it
gives the address back.  Nothing else is assumed of them, so what is proved holds with any pair
of functions that is right. -/
structure InetText where
  ntop4 : Bytes 4 → List Char
  ntop6 : Bytes 16 → List Char
  pton4 : List Char → Option (Bytes 4)
  pton6 : List Char → Option (Bytes 16)
  pton4_ntop4 : ∀ a, pton4 (ntop4 a) = some a
  pton6_ntop6 : ∀ a, pton6 (ntop6 a) = some a
  /-- `255.255.255.255` is the longest. -/
  ntop4_length : ∀ a, (ntop4 a).length ≤ 15
  ntop4_plain : ∀ a, ':' ∉ ntop4 a ∧ nul ∉ ntop4 a
  ntop6_colon : ∀ a, ':' ∈ ntop6 a
  ntop6_plain : ∀ a, nul ∉ ntop6 a

/-- What nothing has been written to: structures and arrays on the stack, and the output of a
call of `inet_ntop` that failed.  It is a parameter wherever it is read, since the code does not
know it either. -/
structure Undefined where
  addr4 : SockaddrIn
  addr6 : SockaddrIn6
  array : Nat → Char
  output : Nat → Char

/-- `inet_ntop` of an address with this text, into `size` characters from `off` on. -/
def inetNtop (u : Undefined) (text buf : List Char) (off size : Nat) : Option (List Char) :=
  if text.length + 1 ≤ size then put buf off (text ++ [nul])
  else put buf off ((List.range size).map u.output)

/-- `snprintf` to `buf + off`. -/
def snprintfAt (buf : List Char) (off size : Nat) (text : List Char) : Option (List Char) :=
  if size = 0 then some buf else put buf off (snprintf size text ++ [nul])

/-! ## 2. The code -/

/-- The variant `_addr`, with the family that is stored in the structure. -/
inductive InetAddress
  | in4 (sinFamily : Nat) (addr : SockaddrIn)
  | in6 (sin6Family : Nat) (addr : SockaddrIn6)

namespace InetAddress

def family : InetAddress → Nat
  | in4 f _ => f
  | in6 f _ => f

/-- The port is in the same place in both structures. -/
def sinPort : InetAddress → Bytes 2
  | in4 _ addr => addr.sinPort
  | in6 _ addr => addr.sin6Port

/-- `sockaddr_in_cast(addr)->sin_addr`: where the other structure has its flow label. -/
def sinAddr : InetAddress → Bytes 4
  | in4 _ addr => addr.sinAddr
  | in6 _ addr => addr.sin6Flowinfo

/-- `sockaddr_in6_cast(addr)->sin6_addr`, which a `sockaddr_in` is too short for. -/
def sin6Addr : InetAddress → Option (Bytes 16)
  | in4 _ _ => none
  | in6 _ addr => some addr.sin6Addr

end InetAddress

namespace Sockets

/-- `addr_len`, the same for every family. -/
def addrLen : Nat := sizeofSockaddrIn6

/-- `host_to_network_16`, as the bytes that are stored. -/
def hostToNetwork16 (host : Endian) (port : UInt16) : Bytes 2 :=
  ⟨host.store 2 (host.toBig 2 port.toNat), host.length_store 2 _⟩

/-- `network_to_host_16` of stored bytes. -/
def networkToHost16 (host : Endian) (port : Bytes 2) : Nat := host.toBig 2 (host.load port.toList)

/-- `from_Ip_port` for a `sockaddr_in`.  Text that is no address leaves `sin_addr` as it is. -/
def fromIpPort4 (t : InetText) (host : Endian) (ip : List Char) (port : UInt16) (addr : SockaddrIn) :
    InetAddress :=
  .in4 afInet ⟨hostToNetwork16 host port, (t.pton4 ip).getD addr.sinAddr⟩

/-- `from_Ip_port` for a `sockaddr_in6`. -/
def fromIpPort6 (t : InetText) (host : Endian) (ip : List Char) (port : UInt16) (addr : SockaddrIn6) :
    InetAddress :=
  .in6 afInet6 { addr with
    sin6Port := hostToNetwork16 host port
    sin6Addr := (t.pton6 ip).getD addr.sin6Addr }

/-- `to_Ip`, to `buf + off`. -/
def toIp (t : InetText) (u : Undefined) (buf : List Char) (off _size : Nat) (addr : InetAddress) :
    Option (List Char) :=
  if addr.family = afInet then inetNtop u (t.ntop4 addr.sinAddr) buf off addrLen
  else if addr.family = afInet6 then do
    let addr6 ← addr.sin6Addr
    inetNtop u (t.ntop6 addr6) buf off addrLen
  else some buf

/-- `to_Ip_port`. -/
def toIpPort (t : InetText) (u : Undefined) (host : Endian) (buf : List Char) (size : Nat)
    (addr : InetAddress) : Option (List Char) :=
  if addr.family = afInet6 then do
    let buf ← put buf 0 ['[']
    let buf ← toIp t u buf 1 (size - 1) addr
    let finish ← strlen buf
    let port := networkToHost16 host addr.sinPort
    snprintfAt buf finish (size - finish) (']' :: ':' :: decimal port)
  else if addr.family = afInet then do
    let buf ← toIp t u buf 0 size addr
    let finish ← strlen buf
    let port := networkToHost16 host addr.sinPort
    snprintfAt buf finish (size - finish) (':' :: decimal port)
  else some buf

end Sockets

namespace InetAddress

/-- `InetAddress(ip, port, ipv6)`. -/
def ofIpPort (t : InetText) (u : Undefined) (host : Endian) (ip : List Char) (port : UInt16)
    (ipv6 : Bool) : InetAddress :=
  let cStr := ip.takeWhile (· ≠ nul)
  if ipv6 || cStr.contains ':' then fromIpPort6 t host cStr port u.addr6
  else fromIpPort4 t host cStr port u.addr4

/-- `std::array<char, 64> buf`. -/
def buf (u : Undefined) : List Char := (List.range 64).map u.array

def toIp (t : InetText) (u : Undefined) (addr : InetAddress) : Option (List Char) := do
  let buf ← Sockets.toIp t u (buf u) 0 64 addr
  cString buf

def toIpPort (t : InetText) (u : Undefined) (host : Endian) (addr : InetAddress) :
    Option (List Char) := do
  let buf ← Sockets.toIpPort t u host (buf u) 64 addr
  cString buf

def port (host : Endian) (addr : InetAddress) : Nat := networkToHost16 host addr.sinPort

/-! ## 3. What is built -/

variable {t : InetText} {u u' : Undefined} {host : Endian} {ip text pre arr : List Char} {p : UInt16}
  {addr : InetAddress}

theorem takeWhile_plain (h : nul ∉ ip) : ip.takeWhile (· ≠ nul) = ip :=
  List.takeWhile_eq_self_iff.mpr fun _ hc => decide_eq_true fun heq => h (heq ▸ hc)

theorem ofIpPort_ntop4 (t : InetText) (u : Undefined) (host : Endian) (a : Bytes 4) (p : UInt16) :
    ofIpPort t u host (t.ntop4 a) p false = .in4 afInet ⟨hostToNetwork16 host p, a⟩ := by
  obtain ⟨hcolon, hnul⟩ := t.ntop4_plain a
  have hfour : ¬ (false || (t.ntop4 a).contains ':') = true := by simpa using hcolon
  simp only [ofIpPort, takeWhile_plain hnul, if_neg hfour, fromIpPort4, t.pton4_ntop4, Option.getD_some]

/-- With the flag or without it an IPv6 text is read as one: the colon decides. -/
theorem ofIpPort_ntop6 (t : InetText) (u : Undefined) (host : Endian) (a : Bytes 16) (p : UInt16)
    (ipv6 : Bool) :
    ofIpPort t u host (t.ntop6 a) p ipv6 =
      .in6 afInet6 { u.addr6 with sin6Port := hostToNetwork16 host p, sin6Addr := a } := by
  have hsix : (ipv6 || (t.ntop6 a).contains ':') = true := by simp [t.ntop6_colon a]
  simp only [ofIpPort, takeWhile_plain (t.ntop6_plain a), if_pos hsix, fromIpPort6, t.pton6_ntop6,
    Option.getD_some]

/-- The port that was stored is read, on any host. -/
theorem networkToHost16_hostToNetwork16 (host : Endian) (p : UInt16) :
    networkToHost16 host (hostToNetwork16 host p) = p.toNat := by
  have hp : p.toNat < 256 ^ 2 := p.toNat_lt
  have hbytes : (hostToNetwork16 host p).toList = highFirst 2 p.toNat := host.store_toBig 2 _
  have hload := host.toBig_load (highFirst 2 p.toNat)
  rw [length_highFirst] at hload
  rw [networkToHost16, hbytes, hload, ofHighFirst_highFirst hp]

/-! ## 4. What is printed -/

theorem decimal_plain (n : Nat) : nul ∉ decimal n :=
  (IpText.toDigits_plain (by decide) (by decide) n).2.2

theorem buf_length (u : Undefined) : (buf u).length = 64 := by
  rw [buf, List.length_map, List.length_range]

/-- Text that `inet_ntop` has room for is behind what was there. -/
theorem inetNtop_extend (u : Undefined) (hpre : pre <+: arr) (hsize : text.length + 1 ≤ addrLen)
    (hroom : pre.length + (text.length + 1) ≤ arr.length) :
    ∃ arr', inetNtop u text arr pre.length addrLen = some arr' ∧ pre ++ text ++ [nul] <+: arr' ∧
      arr'.length = arr.length := by
  have hlen : (text ++ [nul]).length = text.length + 1 := by simp
  rw [inetNtop, if_pos hsize, List.append_assoc]
  exact put_extend hpre (by rw [hlen]; exact hroom)

/-- `snprintf` goes on where the string ends, so what is printed is appended. -/
theorem snprintfAt_strlen (hplain : nul ∉ pre) (htext : nul ∉ text) (harr : pre ++ [nul] <+: arr)
    (hroom : pre.length + text.length < arr.length) :
    ∃ arr', ((strlen arr).bind fun finish => snprintfAt arr finish (arr.length - finish) text) = some arr' ∧
      cString arr' = some (pre ++ text) := by
  have hpre : pre <+: arr := (List.prefix_append pre [nul]).trans harr
  have hsize : arr.length - pre.length ≠ 0 := by omega
  have hfits : text.length ≤ arr.length - pre.length - 1 := by omega
  have hlen : (text ++ [nul]).length = text.length + 1 := by simp
  obtain ⟨arr', hput, hpre', -⟩ := put_extend (s := text ++ [nul]) hpre (by rw [hlen]; omega)
  rw [← List.append_assoc] at hpre'
  refine ⟨arr', ?_, cString_eq (List.not_mem_append hplain htext) hpre'⟩
  rw [strlen_eq hplain harr, Option.bind_some, snprintfAt, if_neg hsize, snprintf,
    List.take_of_length_le hfits, hput]

theorem port_length (host : Endian) (p : Bytes 2) : (decimal (networkToHost16 host p)).length ≤ 5 := by
  refine decimal_length (by decide) ?_
  have hlt : networkToHost16 host p < 256 ^ 2 := by
    have h := host.load_lt p.toList
    rw [List.Vector.toList_length] at h
    exact Endian.toBig_lt h
  omega

/-- `to_Ip` of an IPv4 address is its text, which always fits. -/
theorem toIp_in4 (t : InetText) (u : Undefined) (a : SockaddrIn) (hpre : pre <+: arr)
    (hroom : pre.length + 16 ≤ arr.length) (size : Nat) :
    ∃ arr', Sockets.toIp t u arr pre.length size (.in4 afInet a) = some arr' ∧
      pre ++ t.ntop4 a.sinAddr ++ [nul] <+: arr' ∧ arr'.length = arr.length := by
  have hlen : (t.ntop4 a.sinAddr).length + 1 ≤ 16 := Nat.succ_le_succ (t.ntop4_length a.sinAddr)
  have hsize : (16 : Nat) ≤ addrLen := by decide
  exact inetNtop_extend u hpre (Nat.le_trans hlen hsize) (Nat.le_trans (Nat.add_le_add_left hlen _) hroom)

/-- `to_Ip` of an IPv6 address whose text is short. -/
theorem toIp_in6 (t : InetText) (u : Undefined) (a : SockaddrIn6) (hpre : pre <+: arr)
    (hroom : pre.length + 28 ≤ arr.length) (hshort : (t.ntop6 a.sin6Addr).length + 1 ≤ addrLen)
    (size : Nat) :
    ∃ arr', Sockets.toIp t u arr pre.length size (.in6 afInet6 a) = some arr' ∧
      pre ++ t.ntop6 a.sin6Addr ++ [nul] <+: arr' ∧ arr'.length = arr.length := by
  have hlen : (t.ntop6 a.sin6Addr).length + 1 ≤ 28 := hshort
  exact inetNtop_extend u hpre hshort (by omega)

theorem toIp_eq4 (t : InetText) (u : Undefined) (a : SockaddrIn) :
    toIp t u (.in4 afInet a) = some (t.ntop4 a.sinAddr) := by
  obtain ⟨arr, harr, hpre, -⟩ :=
    toIp_in4 t u a (List.nil_prefix (l := buf u)) (by rw [buf_length]; decide) 64
  rw [List.length_nil] at harr
  rw [toIp, harr]
  exact cString_eq (t.ntop4_plain _).2 hpre

theorem toIp_eq6 (t : InetText) (u : Undefined) (a : SockaddrIn6)
    (hshort : (t.ntop6 a.sin6Addr).length + 1 ≤ addrLen) :
    toIp t u (.in6 afInet6 a) = some (t.ntop6 a.sin6Addr) := by
  obtain ⟨arr, harr, hpre, -⟩ :=
    toIp_in6 t u a (List.nil_prefix (l := buf u)) (by rw [buf_length]; decide) hshort 64
  rw [List.length_nil] at harr
  rw [toIp, harr]
  exact cString_eq (t.ntop6_plain _) hpre

theorem toIpPort_eq4 (t : InetText) (u : Undefined) (host : Endian) (a : SockaddrIn) :
    toIpPort t u host (.in4 afInet a) =
      some (t.ntop4 a.sinAddr ++ ':' :: decimal (networkToHost16 host a.sinPort)) := by
  have hport := port_length host a.sinPort
  have hip := t.ntop4_length a.sinAddr
  have hne : afInet ≠ afInet6 := by decide
  obtain ⟨arr, harr, hpre, hlen⟩ :=
    toIp_in4 t u a (List.nil_prefix (l := buf u)) (by rw [buf_length]; decide) 64
  rw [List.length_nil] at harr
  rw [buf_length] at hlen
  have hroom : ([] ++ t.ntop4 a.sinAddr).length +
      (':' :: decimal (networkToHost16 host a.sinPort)).length < arr.length := by
    rw [List.nil_append, List.length_cons, hlen]
    omega
  obtain ⟨arr', harr', hstr⟩ := snprintfAt_strlen (t.ntop4_plain _).2
    (List.not_mem_cons_of_ne_of_not_mem (by decide) (decimal_plain _)) hpre hroom
  rw [hlen] at harr'
  have hprinted : Sockets.toIpPort t u host (buf u) 64 (.in4 afInet a) = some arr' := by
    simp only [Sockets.toIpPort, family, sinPort, if_neg hne, ↓reduceIte, harr, Option.bind_eq_bind,
      Option.bind_some]
    exact harr'
  rw [toIpPort, hprinted]
  exact hstr

theorem toIpPort_eq6 (t : InetText) (u : Undefined) (host : Endian) (a : SockaddrIn6)
    (hshort : (t.ntop6 a.sin6Addr).length + 1 ≤ addrLen) :
    toIpPort t u host (.in6 afInet6 a) =
      some ('[' :: t.ntop6 a.sin6Addr ++ ']' :: ':' :: decimal (networkToHost16 host a.sin6Port)) := by
  have hport := port_length host a.sin6Port
  have hip : (t.ntop6 a.sin6Addr).length + 1 ≤ 28 := hshort
  -- the bracket, the address behind it, the port behind that
  obtain ⟨arr₀, harr₀, hpre₀, hlen₀⟩ :=
    put_extend (s := ['[']) (List.nil_prefix (l := buf u)) (by rw [buf_length]; decide)
  rw [List.length_nil] at harr₀
  rw [buf_length] at hlen₀
  obtain ⟨arr, harr, hpre, hlen⟩ :=
    toIp_in6 t u a hpre₀ (by rw [hlen₀]; decide) hshort 63
  rw [hlen₀] at hlen
  have hplain : nul ∉ [] ++ ['['] ++ t.ntop6 a.sin6Addr :=
    List.not_mem_append (by decide) (t.ntop6_plain _)
  have htext : nul ∉ ']' :: ':' :: decimal (networkToHost16 host a.sin6Port) :=
    List.not_mem_cons_of_ne_of_not_mem (by decide)
      (List.not_mem_cons_of_ne_of_not_mem (by decide) (decimal_plain _))
  have hroom : ([] ++ ['['] ++ t.ntop6 a.sin6Addr).length +
      (']' :: ':' :: decimal (networkToHost16 host a.sin6Port)).length < arr.length := by
    simp only [List.nil_append, List.length_append, List.length_cons, List.length_nil, hlen]
    omega
  obtain ⟨arr', harr', hstr⟩ := snprintfAt_strlen hplain htext hpre hroom
  rw [hlen] at harr'
  have hprinted : Sockets.toIpPort t u host (buf u) 64 (.in6 afInet6 a) = some arr' := by
    have hbracket : Sockets.toIp t u arr₀ 1 (64 - 1) (.in6 afInet6 a) = some arr := harr
    simp only [Sockets.toIpPort, family, sinPort, ↓reduceIte, harr₀, hbracket, Option.bind_eq_bind,
      Option.bind_some]
    exact harr'
  rw [toIpPort, hprinted]
  exact hstr

/-! ## 5. Round trips -/

/-- An address built from `text` and the port reports the port and the text, and prints `shown`,
whatever was in the memory it is built and printed in. -/
structure RoundTrip (t : InetText) (host : Endian) (text shown : List Char) (p : UInt16) (ipv6 : Bool) :
    Prop where
  port : ∀ u, (ofIpPort t u host text p ipv6).port host = p.toNat
  toIp : ∀ u u', (ofIpPort t u host text p ipv6).toIp t u' = some text
  toIpPort : ∀ u u', (ofIpPort t u host text p ipv6).toIpPort t u' host = some shown

/-- `text:port`. -/
def shown4 (text : List Char) (p : UInt16) : List Char := text ++ ':' :: decimal p.toNat

/-- `[text]:port`. -/
def shown6 (text : List Char) (p : UInt16) : List Char := '[' :: text ++ ']' :: ':' :: decimal p.toNat

/-- What is shown is what connection names are made of. -/
theorem shown_ipPort (text : List Char) (p : UInt16) (h : text.length ≤ 39) :
    IpPort.toIpPort ⟨false, text, p.toFin, h⟩ = shown4 text p ∧
      IpPort.toIpPort ⟨true, text, p.toFin, h⟩ = shown6 text p :=
  ⟨rfl, rfl⟩

theorem roundTrip4 (t : InetText) (host : Endian) (a : Bytes 4) (p : UInt16) :
    RoundTrip t host (t.ntop4 a) (shown4 (t.ntop4 a) p) p false where
  port u := by
    rw [ofIpPort_ntop4]
    exact networkToHost16_hostToNetwork16 host p
  toIp u u' := by
    rw [ofIpPort_ntop4, toIp_eq4]
  toIpPort u u' := by
    rw [ofIpPort_ntop4, toIpPort_eq4, networkToHost16_hostToNetwork16]
    rfl

theorem roundTrip6 (t : InetText) (host : Endian) (a : Bytes 16) (p : UInt16) (ipv6 : Bool)
    (hshort : (t.ntop6 a).length + 1 ≤ addrLen) :
    RoundTrip t host (t.ntop6 a) (shown6 (t.ntop6 a) p) p ipv6 where
  port u := by
    rw [ofIpPort_ntop6]
    exact networkToHost16_hostToNetwork16 host p
  toIp u u' := by
    rw [ofIpPort_ntop6, toIp_eq6 t u' _ hshort]
  toIpPort u u' := by
    rw [ofIpPort_ntop6, toIpPort_eq6 t u' host _ hshort, networkToHost16_hostToNetwork16]
    rfl

/-- An output of terminators. -/
def blank : Undefined where
  addr4 := ⟨.replicate 2 0, .replicate 4 0⟩
  addr6 := ⟨.replicate 2 0, .replicate 4 0, .replicate 16 0, .replicate 4 0⟩
  array _ := nul
  output _ := nul

/-- The text of a long address can be lost: on a stack of zeros nothing is printed at all. -/
theorem toIp_blank (t : InetText) (a : SockaddrIn6) (hlong : ¬ (t.ntop6 a.sin6Addr).length + 1 ≤ addrLen) :
    toIp t blank (.in6 afInet6 a) = some [] := by
  have hntop : Sockets.toIp t blank (buf blank) 0 64 (.in6 afInet6 a) =
      put (buf blank) 0 (List.replicate 28 nul) := if_neg hlong
  have hput : (put (buf blank) 0 (List.replicate 28 nul)).bind cString = some [] := by decide
  rw [toIp, hntop]
  exact hput

/-- A long text does not come back.  It is enough to look at one stack, the one of zeros. -/
theorem roundTrip6_short {t : InetText} {host : Endian} {a : Bytes 16} {p : UInt16} {ipv6 : Bool}
    {shown : List Char} (h : RoundTrip t host (t.ntop6 a) shown p ipv6) :
    (t.ntop6 a).length + 1 ≤ addrLen := by
  by_contra hlong
  have hback := h.toIp blank blank
  rw [ofIpPort_ntop6, toIp_blank t _ hlong] at hback
  have hnil : t.ntop6 a = [] := (Option.some.inj hback).symm
  exact absurd (t.ntop6_colon a) (by rw [hnil]; exact List.not_mem_nil)

/-- **Which addresses come back as text.**  Every IPv4 address does, and an IPv6 address does if
and only if its text and the terminator are not longer than a `sockaddr_in6`.  The arrays are
long enough for all of them; what decides is that the size of the wrong structure is passed to
`inet_ntop`. -/
theorem address_text_exact (t : InetText) (host : Endian) (p : UInt16) :
    (∀ a, RoundTrip t host (t.ntop4 a) (shown4 (t.ntop4 a) p) p false) ∧
    ∀ a ipv6, RoundTrip t host (t.ntop6 a) (shown6 (t.ntop6 a) p) p ipv6 ↔
      (t.ntop6 a).length + 1 ≤ 28 := by
  refine ⟨fun a => roundTrip4 t host a p, fun a ipv6 => ?_⟩
  exact ⟨roundTrip6_short, roundTrip6 t host a p ipv6⟩

/-! ## 6. Canonical text -/

/-- Bytes that were read, if they are printed as what was read. -/
def readBack (n : Nat) (bytes : List Byte) (text s : List Char) : Option (Bytes n) :=
  if h : bytes.length = n ∧ text = s then some ⟨bytes, h.1⟩ else none

theorem readBack_eq {n : Nat} (a : Bytes n) {bytes : List Byte} {s : List Char} (hbytes : bytes = a.toList)
    (htext : text = s) : readBack n bytes text s = some a := by
  subst hbytes
  rw [readBack, dif_pos ⟨a.toList_length, htext⟩]
  rfl

/-- The functions that print the canonical text, and read it and nothing else. -/
def canonical : InetText where
  ntop4 a := IpText.text4 a.toList
  ntop6 a := IpText.text6 (IpText.words a.toList)
  pton4 s :=
    let bytes := IpText.bytes4 s
    readBack 4 bytes (IpText.text4 bytes) s
  pton6 s :=
    let ws := IpText.parse6 s
    readBack 16 (IpText.bytesOf ws) (IpText.text6 ws) s
  pton4_ntop4 a := by
    have hne : a.toList ≠ [] := List.ne_nil_of_length_pos (by rw [a.toList_length]; decide)
    have hread := IpText.bytes4_text4 hne
    exact readBack_eq a hread (congrArg _ hread)
  pton6_ntop6 a := by
    have hlen : (IpText.words a.toList).length = 8 := by rw [IpText.length_words, a.toList_length]
    have hread := IpText.parse6_text6 hlen IpText.words_lt
    refine readBack_eq a ?_ (congrArg _ hread)
    rw [hread, IpText.bytesOf_words (by rw [a.toList_length])]
  ntop4_length a := IpText.length_text4 a.toList_length
  ntop4_plain a := IpText.text4_plain a.toList
  ntop6_colon a := IpText.colon_mem_text6 (by rw [IpText.length_words, a.toList_length])
  ntop6_plain a := IpText.text6_plain _

/-- `127.0.0.1` and `::1` do: both are texts that come back as they were given. -/
theorem address_text_canonical :
    RoundTrip canonical .little "127.0.0.1".toList "127.0.0.1:80".toList 80 false ∧
      RoundTrip canonical .little "::1".toList "[::1]:80".toList 80 false := by
  let a : Bytes 4 := ⟨[127, 0, 0, 1], rfl⟩
  have hfour : canonical.ntop4 a = "127.0.0.1".toList := by decide
  have hsix : canonical.ntop6 loopback6.sin6Addr = "::1".toList := by decide
  have hshown : shown4 "127.0.0.1".toList 80 = "127.0.0.1:80".toList := by decide
  have hshown' : shown6 "::1".toList 80 = "[::1]:80".toList := by decide
  have h := (address_text_exact canonical .little 80).1 a
  have h' := ((address_text_exact canonical .little 80).2 loopback6.sin6Addr false).mpr
    (by rw [hsix]; decide)
  rw [hfour, hshown] at h
  rw [hsix, hshown'] at h'
  exact ⟨h, h'⟩

/-- `2001:db8:1111:2222:3333:4444:5555:6666` does not. -/
theorem address_text_lost :
    ¬ RoundTrip canonical .little "2001:db8:1111:2222:3333:4444:5555:6666".toList
      "[2001:db8:1111:2222:3333:4444:5555:6666]:80".toList 80 false := by
  intro h
  let a : Bytes 16 := ⟨[0x20, 0x01, 0x0d, 0xb8, 0x11, 0x11, 0x22, 0x22, 0x33, 0x33, 0x44, 0x44, 0x55,
    0x55, 0x66, 0x66], rfl⟩
  have htext : canonical.ntop6 a = "2001:db8:1111:2222:3333:4444:5555:6666".toList := by decide
  rw [← htext] at h
  exact absurd (roundTrip6_short h) (by decide)

end InetAddress

end Suduo
