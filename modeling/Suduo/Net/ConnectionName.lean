/-
# Connection names

`TcpServer::new_connection` names a connection `_name + "-ip:port#id"`, the part after `_name`
printed by `snprintf` into a `char[64]`: text that does not fit is cut off, and with it the digits
that tell two connections apart.  This module has the name as the code builds it and shows that
for an `int` number nothing is ever cut, so the name determines the number.

`TcpClient::new_connection` prints into a `char[32]`.  That is room for some of the digits only, when
the text of the endpoint is long, and for none when it has 29 characters or more
(`connection_names_exact`).

Text is a list of characters.  The address is what `InetAddress::to_Ip_port` prints.
-/
import Mathlib.Data.Nat.Digits.Defs

namespace Suduo

/-! ## 1. Addresses and names -/

/-- The text of an IP address and a port.  The canonical text of an address, which is what
`inet_ntop` writes, has at most eight groups of four digits. -/
structure IpPort where
  v6 : Bool
  ip : List Char
  port : Fin 65536
  ip_length : ip.length ≤ 39

/-- `%d` and `%u` of a number that is not negative. -/
def decimal (n : Nat) : List Char := Nat.toDigits 10 n

/-- `InetAddress::to_Ip_port`. -/
def IpPort.toIpPort (a : IpPort) : List Char :=
  if a.v6 then '[' :: a.ip ++ ']' :: ':' :: decimal a.port else a.ip ++ ':' :: decimal a.port

/-- What `snprintf` leaves in a buffer of `size` bytes: the last one is for the terminator, and
what does not fit is cut off without a word. -/
def snprintf (size : Nat) (text : List Char) : List Char := text.take (size - 1)

/-- `connName` of `TcpServer::new_connection`. -/
def serverConnName (name : List Char) (ipPort : IpPort) (connId : Nat) : List Char :=
  name ++ snprintf 64 ('-' :: ipPort.toIpPort ++ '#' :: decimal connId)

/-- `conn_name` of `TcpClient::new_connection`. -/
def clientConnName (name : List Char) (peerAddr : IpPort) (connId : Nat) : List Char :=
  name ++ snprintf 32 (':' :: peerAddr.toIpPort ++ '#' :: decimal connId)

/-! ## 2. Names tell connections apart -/

theorem decimal_injective : Function.Injective decimal := by
  have hread : Function.LeftInverse (fun digits => Nat.ofDigitChars 10 digits 0) decimal :=
    fun _ => Nat.ofDigitChars_ten_toDigits
  exact hread.injective

theorem decimal_length {n k : Nat} (hk : 0 < k) (h : n < 10 ^ k) : (decimal n).length ≤ k :=
  Nat.toDigits_length 10 n k hk h

theorem toIpPort_length (a : IpPort) : a.toIpPort.length ≤ 47 := by
  have hip := a.ip_length
  have hport : (decimal a.port).length ≤ 5 := by
    refine decimal_length (by decide) ?_
    have := a.port.isLt
    omega
  unfold IpPort.toIpPort
  split <;> simp <;> omega

/-- The printed part fits the buffer, so nothing of it is cut. -/
theorem serverConnName_eq (name : List Char) (a : IpPort) {connId : Nat} (h : connId < 2 ^ 31) :
    serverConnName name a connId = name ++ '-' :: a.toIpPort ++ '#' :: decimal connId := by
  have haddr := toIpPort_length a
  have hid : (decimal connId).length ≤ 10 := decimal_length (by decide) (by omega)
  have hfits : ('-' :: a.toIpPort ++ '#' :: decimal connId).length ≤ 63 := by
    simp
    omega
  unfold serverConnName snprintf
  rw [List.take_of_length_le hfits]
  simp

/-- **Two connections of one server have two names.**  Nothing of the printed part is cut
(`serverConnName_eq`), and behind the last `#` stands the number. -/
theorem serverConnName_inj (name : List Char) (a : IpPort) {i j : Nat} (hi : i < 2 ^ 31)
    (hj : j < 2 ^ 31) (h : serverConnName name a i = serverConnName name a j) : i = j := by
  rw [serverConnName_eq name a hi, serverConnName_eq name a hj] at h
  have hdigits : '#' :: decimal i = '#' :: decimal j := List.append_cancel_left h
  exact decimal_injective (List.cons.inj hdigits).2

/-! ## 3. The digits that are left -/

/-- The number that the first `k` digits of `n` are. -/
def leading (k n : Nat) : Nat := n / 10 ^ ((decimal n).length - k)

variable {k n : Nat}

theorem take_decimal (hk : 0 < k) : (decimal n).take k = decimal (leading k n) := by
  induction n using Nat.strongRecOn with
  | ind n ih =>
    by_cases hlen : (decimal n).length ≤ k
    · rw [List.take_of_length_le hlen, leading, Nat.sub_eq_zero_of_le hlen, Nat.pow_zero, Nat.div_one]
    · have hn : 10 ≤ n := by
        by_contra hn
        have hone : decimal n = [n.digitChar] := Nat.toDigits_of_lt_base (by omega)
        rw [hone, List.length_singleton] at hlen
        omega
      have hsplit : decimal n = decimal (n / 10) ++ [(n % 10).digitChar] :=
        Nat.toDigits_of_base_le (by decide) hn
      have hlen' : (decimal n).length = (decimal (n / 10)).length + 1 := by
        rw [hsplit, List.length_append, List.length_singleton]
      have hleading : leading k (n / 10) = leading k n := by
        have hexp : (decimal n).length - k = ((decimal (n / 10)).length - k) + 1 := by omega
        rw [leading, leading, hexp, Nat.pow_succ', Nat.div_div_eq_div_mul]
      rw [hsplit, List.take_append_of_le_length (by omega), ih (n / 10) (by omega), hleading]

theorem leading_zero (n : Nat) : leading 0 n = 0 := by
  have hpos : 0 < (decimal n).length := Nat.length_toDigits_pos
  exact Nat.div_eq_of_lt ((Nat.length_toDigits_le_iff (by decide) hpos).mp (Nat.le_refl _))

/-- Cut digits are equal when the numbers they are are equal: they are the leading digits, and
those have no zero in front. -/
theorem take_decimal_inj {i j : Nat} :
    (decimal i).take k = (decimal j).take k ↔ leading k i = leading k j := by
  cases k with
  | zero => exact iff_of_true rfl (by rw [leading_zero, leading_zero])
  | succ k =>
    rw [take_decimal k.succ_pos, take_decimal k.succ_pos]
    exact decimal_injective.eq_iff

/-- A number of at most `k` digits is not cut when `k` of them are kept. -/
theorem leading_self (h : (decimal n).length ≤ k) : leading k n = n := by
  rw [leading, Nat.sub_eq_zero_of_le h, Nat.pow_zero, Nat.div_one]

/-- What the client prints: 31 characters, of which the endpoint and two signs come first.  What
is left is for the digits. -/
theorem clientConnName_ne_iff (name : List Char) (a : IpPort) (i j : Nat) :
    clientConnName name a i ≠ clientConnName name a j ↔
      leading (29 - a.toIpPort.length) i ≠ leading (29 - a.toIpPort.length) j := by
  have hcut : ∀ m, snprintf 32 (':' :: a.toIpPort ++ '#' :: decimal m) =
      (':' :: a.toIpPort ++ ['#']).take 31 ++ (decimal m).take (29 - a.toIpPort.length) := by
    intro m
    have hroom : 31 - (':' :: a.toIpPort ++ ['#']).length = 29 - a.toIpPort.length := by
      simp only [List.length_append, List.length_cons, List.length_nil]
      omega
    rw [snprintf, List.append_cons, List.take_append, hroom]
  rw [Ne, Ne, not_iff_not, clientConnName, clientConnName, hcut, hcut, List.append_cancel_left_eq,
    List.append_cancel_left_eq, take_decimal_inj]

/-- The number of a connection: `_next_conn_id` starts at 1 and is an `int`. -/
def ConnNumber (n : Nat) : Prop := 1 ≤ n ∧ n < 2 ^ 31

instance : DecidablePred ConnNumber := fun _ => inferInstanceAs (Decidable (_ ∧ _))

theorem ConnNumber.digits (h : ConnNumber n) : (decimal n).length ≤ 10 :=
  decimal_length (by decide) (Nat.lt_trans h.2 (by decide))

/-- Two numbers of ten digits whose difference is cut. -/
theorem leading_cut : ∀ k < 10, leading k 1000000000 = leading k 1000000001 := by decide

/-- Room for ten digits is what it takes, since an `int` may have as many; with less, two numbers
of ten digits are printed alike (`leading_cut`). -/
theorem clientConnName_unique (name : List Char) (a : IpPort) :
    (∀ i j, ConnNumber i → ConnNumber j → i ≠ j → clientConnName name a i ≠ clientConnName name a j) ↔
      a.toIpPort.length ≤ 19 := by
  constructor
  · intro h
    by_contra hlong
    have hne := h 1000000000 1000000001 (by decide) (by decide) (by decide)
    exact (clientConnName_ne_iff name a _ _).mp hne (leading_cut _ (by omega))
  · intro hlen i j hi hj hij
    rw [clientConnName_ne_iff, leading_self (Nat.le_trans hi.digits (by omega)),
      leading_self (Nat.le_trans hj.digits (by omega))]
    exact hij

/-- **Which connections have two names.**  At the server all do.  At the client two do if and
only if their numbers differ in the digits that are left, and all do if and only if the endpoint
has at most 19 characters.  The server's buffer is long enough for every address and the client's
is not; that is the whole difference. -/
theorem connection_names_exact (name : List Char) (a : IpPort) :
    (∀ i j, ConnNumber i → ConnNumber j → i ≠ j →
      serverConnName name a i ≠ serverConnName name a j ∧
        (clientConnName name a i ≠ clientConnName name a j ↔
          leading (29 - a.toIpPort.length) i ≠ leading (29 - a.toIpPort.length) j)) ∧
    ((∀ i j, ConnNumber i → ConnNumber j → i ≠ j →
      clientConnName name a i ≠ clientConnName name a j) ↔ a.toIpPort.length ≤ 19) := by
  refine ⟨fun i j hi hj hij => ⟨fun h => ?_, clientConnName_ne_iff name a i j⟩, ?_⟩
  · exact hij (serverConnName_inj name a hi.2 hj.2 h)
  · exact clientConnName_unique name a

/-- Room for one digit: `1` and `10` are printed alike. -/
theorem connection_names_alike :
    ∃ a : IpPort, a.toIpPort = "[2001:db8:1:2:3:4:5:6]:50000".toList ∧
      clientConnName "echo".toList a 1 = clientConnName "echo".toList a 10 :=
  ⟨⟨true, "2001:db8:1:2:3:4:5:6".toList, 50000, by decide⟩, by decide, by decide⟩

/-- `127.0.0.1:5000` is short enough: with it the name is what the caller gave, a dash, the
address and the number. -/
theorem connection_names_loopback :
    clientConnName "echo".toList ⟨false, "127.0.0.1".toList, 5000, by decide⟩ 1 ≠
      clientConnName "echo".toList ⟨false, "127.0.0.1".toList, 5000, by decide⟩ 10 :=
  (((connection_names_exact "echo".toList ⟨false, "127.0.0.1".toList, 5000, by decide⟩).1 1 10
    (by decide) (by decide) (by decide)).2).mpr (by decide)

end Suduo
