import Mathlib.Data.List.TakeWhile
import Translib.HttpRequest
import Translib.TcpClient

/-! The addresses clients connect to and servers listen on, and the ports read from text. -/

namespace Translib

/-- `evutil_inet_pton` for `AF_INET`: the four bytes of the address, or nothing is stored. -/
abbrev InetPton := CString → Option (List Byte)

/-- A `sockaddr_in` of the family `AF_INET`. Address and port are in network order. -/
structure SockaddrIn where
  sinAddr : List Byte
  sinPort : List Byte
  deriving DecidableEq, Repr

/-- The bytes of `htons(port)`. -/
def htons (port : ℕ) : List Byte := [UInt8.ofNat (port/256),UInt8.ofNat port]

/-- The address as `TcpClient::connect` and `TcpServer::listen` fill it in. It was zeroed, and
the result of `evutil_inet_pton` is not looked at. -/
def serverAddr (inetPton : InetPton) (ip : CString) (port : ℕ) : SockaddrIn :=
  ⟨(inetPton ip).getD [0,0,0,0],htons port⟩

/-- `c_str()` as a C function reads it. -/
def cStr (s : CString) : CString := s.takeWhile fun c => c ≠ '\x00'

inductive StoiError
  | invalidArgument | outOfRange
  deriving DecidableEq, Repr

def isspace (c : Char) : Bool := c = ' ' || decide (9 ≤ c.toNat ∧ c.toNat ≤ 13)

def readSign : CString → Bool × CString
  | '-'::rest => (true,rest)
  | '+'::rest => (false,rest)
  | rest => (false,rest)

/-- The values of `int`. -/
def IsInt (z : ℤ) : Prop := -2^31 ≤ z ∧ z < 2^31

instance (z : ℤ) : Decidable (IsInt z) := inferInstanceAs (Decidable (_ ∧ _))

/-- `std::stoi` of base ten: blanks, a sign, as many digits as there are. -/
def stoi (text : CString) : Except StoiError ℤ :=
  let number := readSign (text.dropWhile isspace)
  let digits := number.2.takeWhile Char.isDigit
  if digits.isEmpty then .error .invalidArgument
  else
    let value : ℤ := Nat.ofDigitChars 10 digits 0
    let value := if number.1 then -value else value
    if IsInt value then .ok value else .error .outOfRange

namespace TcpClient

/-- A connect, and the address it hands to `bufferevent_socket_connect`, if it comes to it. -/
def connectTo (inetPton : InetPton) (o : ConnectOutcome) (ip : CString) (port : ℕ) (c : TcpClient) :
    (Bool × TcpClient × List SocketOp) × Option SockaddrIn :=
  (connect o c,
    if c.socket.bev.isNone && o.socketNew && o.enable then some (serverAddr inetPton ip port)
    else none)

end TcpClient

namespace TcpServer

/-- The address a listen hands to `evconnlistener_new_bind`. -/
def listenAddr (inetPton : InetPton) (ip : CString) (port : ℕ) : SockaddrIn :=
  serverAddr inetPton ip port

end TcpServer

namespace TcpClientTPKT

/-- The conversion to `uint16_t` reduces the number. What `std::stoi` throws is not caught. -/
def connect_with_IP (inetPton : InetPton) (o : ConnectOutcome) (ip port : CString) (c : TcpClient) :
    Except StoiError ((Bool × TcpClient × List SocketOp) × Option SockaddrIn) :=
  (stoi port).map fun number => c.connectTo inetPton o (cStr ip) (number % 2^16).toNat

end TcpClientTPKT

namespace SocketAddresses

/-- Text that starts with a number: blanks, a sign and digits come before anything else. -/
inductive Numeral : CString → ℤ → Prop
  | mk {blanks sign digits rest : CString} (hblanks : ∀ c ∈ blanks, isspace c)
      (hsign : sign = [] ∨ sign = ['+'] ∨ sign = ['-']) (hsome : digits ≠ [])
      (hdigits : ∀ c ∈ digits, c.isDigit) (hrest : ∀ c ∈ rest.head?, ¬ c.isDigit) :
      Numeral (blanks ++ sign ++ digits ++ rest)
        (if sign = ['-'] then -(Nat.ofDigitChars 10 digits 0 : ℤ) else Nat.ofDigitChars 10 digits 0)

theorem isDigit_not_isspace {c : Char} (h : c.isDigit = true) : isspace c = false := by
  have hrange : 48 ≤ c.toNat ∧ c.toNat ≤ 57 := Char.isDigit_iff_toNat.mp h
  have hblank : c ≠ ' ' := by
    rintro rfl
    exact absurd hrange.1 (by decide)
  simp only [isspace,hblank,decide_false,Bool.false_or,decide_eq_false_iff_not]
  omega

theorem readSign_digits {digits : CString} (hsome : digits ≠ []) (hdigits : ∀ c ∈ digits, c.isDigit)
    (rest : CString) : readSign (digits ++ rest) = (false,digits ++ rest) := by
  cases digits with
  | nil => exact absurd rfl hsome
  | cons d digits =>
    have hd := hdigits d (by simp)
    rw [List.cons_append,readSign]
    · rintro r ⟨⟩
      exact absurd hd (by decide)
    · rintro r ⟨⟩
      exact absurd hd (by decide)

theorem takeWhile_digits {digits rest : CString} (hdigits : ∀ c ∈ digits, c.isDigit)
    (hrest : ∀ c ∈ rest.head?, ¬ c.isDigit) : (digits ++ rest).takeWhile Char.isDigit = digits := by
  rw [List.takeWhile_append_of_pos hdigits]
  cases rest with
  | nil => simp
  | cons c rest => simp [hrest c (by simp)]

theorem stoi_numeral {text : CString} {z : ℤ} (h : Numeral text z) :
    stoi text = if IsInt z then .ok z else .error .outOfRange := by
  cases h with
  | @mk blanks sign digits rest hblanks hsign hsome hdigits hrest =>
    obtain ⟨d,ds,rfl⟩ := List.exists_cons_of_ne_nil hsome
    have hd : isspace d = false := isDigit_not_isspace (hdigits d (by simp))
    have hnumber : readSign ((blanks ++ sign ++ d::ds ++ rest).dropWhile isspace) =
        (decide (sign = ['-']),d::ds ++ rest) := by
      rw [List.append_assoc,List.append_assoc,List.dropWhile_append_of_pos hblanks]
      rcases hsign with rfl | rfl | rfl
      · rw [List.nil_append,List.cons_append,List.dropWhile_cons_of_neg (by simp [hd]),
          ← List.cons_append,readSign_digits hsome hdigits]
        rfl
      · rfl
      · rfl
    simp only [stoi,hnumber,takeWhile_digits hdigits hrest,List.isEmpty_cons,decide_eq_true_eq]
    rfl

theorem stoi_no_numeral {text : CString} (h : ∀ z, ¬ Numeral text z) :
    stoi text = .error .invalidArgument := by
  have hsplit : ∃ sign, (sign = [] ∨ sign = ['+'] ∨ sign = ['-']) ∧
      text.dropWhile isspace = sign ++ (readSign (text.dropWhile isspace)).2 := by
    generalize text.dropWhile isspace = s
    unfold readSign
    split
    · exact ⟨['-'],by simp,rfl⟩
    · exact ⟨['+'],by simp,rfl⟩
    · exact ⟨[],by simp,rfl⟩
  obtain ⟨sign,hsign,hrest⟩ := hsplit
  have hnone : ((readSign (text.dropWhile isspace)).2.takeWhile Char.isDigit) = [] := by
    by_contra hsome
    have htext : text.takeWhile isspace ++ sign ++
        (readSign (text.dropWhile isspace)).2.takeWhile Char.isDigit ++
          (readSign (text.dropWhile isspace)).2.dropWhile Char.isDigit = text := by
      rw [List.append_assoc,List.takeWhile_append_dropWhile,List.append_assoc,← hrest,
        List.takeWhile_append_dropWhile]
    have hends : ∀ c ∈ ((readSign (text.dropWhile isspace)).2.dropWhile Char.isDigit).head?,
        ¬ c.isDigit := by
      intro c hc
      have hnot := List.head?_dropWhile_not Char.isDigit (readSign (text.dropWhile isspace)).2
      rw [Option.mem_def.mp hc] at hnot
      simp [hnot]
    have hblanks : ∀ c ∈ text.takeWhile isspace, isspace c := fun c hc => List.mem_takeWhile_imp hc
    have hnumeral := Numeral.mk hblanks hsign hsome (fun c hc => List.mem_takeWhile_imp hc) hends
    rw [htext] at hnumeral
    exact h _ hnumeral
  simp [stoi,hnone]

theorem numeral_toDigits (p : ℕ) : Numeral (Nat.toDigits 10 p) p := by
  have hdigits : ∀ c ∈ Nat.toDigits 10 p, c.isDigit :=
    fun c hc => Nat.isDigit_of_mem_toDigits (by decide) (by decide) hc
  have hsome : Nat.toDigits 10 p ≠ [] := Nat.toDigits_ne_nil
  have hnumeral : Numeral ([] ++ [] ++ Nat.toDigits 10 p ++ []) _ :=
    .mk (by simp) (.inl rfl) hsome hdigits (by simp)
  simpa [Nat.ofDigitChars_ten_toDigits] using hnumeral

theorem htons_injective {p q : ℕ} (hp : p < 2^16) (hq : q < 2^16) (h : htons p = htons q) : p = q := by
  simp only [htons,List.cons.injEq,and_true] at h
  have hhigh := congrArg UInt8.toNat h.1
  have hlow := congrArg UInt8.toNat h.2
  simp only [UInt8.toNat_ofNat'] at hhigh hlow
  omega

/-- A connect that returns true has handed its address to libevent. -/
theorem connectTo_true {o : ConnectOutcome} {c : TcpClient} (h : (c.connect o).1 = true)
    (inetPton : InetPton) (ip : CString) (port : ℕ) :
    (c.connectTo inetPton o ip port).2 = some (serverAddr inetPton ip port) := by
  obtain ⟨⟨bev,isClosing⟩,isConnected⟩ := c
  obtain ⟨socketNew,enable,socketConnect⟩ := o
  cases bev <;> cases socketNew <;> cases enable <;>
    simp_all [TcpClient.connect,TcpClient.connectTo]

/-- A client that is given the text of a port connects to where a server listens that is given
the same address and the port, and to no other port. Any other text that starts with a number
connects to the port that is left of it in 16 bits, if it is an `int`; text that does not
makes the call throw, and so does any other number, before the client is touched. -/
theorem connects_where_listens (inetPton : InetPton) (o : ConnectOutcome) (ip port : CString)
    (c : TcpClient) :
    (∀ z, Numeral port z → TcpClientTPKT.connect_with_IP inetPton o ip port c =
      if IsInt z then .ok (c.connectTo inetPton o (cStr ip) (z % 2^16).toNat)
      else .error .outOfRange) ∧
    ((∀ z, ¬ Numeral port z) →
      TcpClientTPKT.connect_with_IP inetPton o ip port c = .error .invalidArgument) ∧
    ∀ p < 2^16, TcpClientTPKT.connect_with_IP inetPton o ip (Nat.toDigits 10 p) c =
        .ok (c.connectTo inetPton o (cStr ip) p) ∧
      ((c.connect o).1 = true → ∀ q < 2^16, (c.connectTo inetPton o (cStr ip) p).2 =
        some (TcpServer.listenAddr inetPton (cStr ip) q) ↔ q = p) := by
  have hnumeral : ∀ port z, Numeral port z → TcpClientTPKT.connect_with_IP inetPton o ip port c =
      if IsInt z then .ok (c.connectTo inetPton o (cStr ip) (z % 2^16).toNat)
      else .error .outOfRange := by
    intro port z hz
    rw [TcpClientTPKT.connect_with_IP,stoi_numeral hz]
    split_ifs <;> rfl
  refine ⟨hnumeral port,fun hnone => ?_,fun p hp => ?_⟩
  · rw [TcpClientTPKT.connect_with_IP,stoi_no_numeral hnone]
    rfl
  · have hint : IsInt p := ⟨by omega,by omega⟩
    have hport : ((p : ℤ) % 2^16).toNat = p := by omega
    refine ⟨?_,fun hconnect q hq => ?_⟩
    · rw [hnumeral _ _ (numeral_toDigits p),if_pos hint,hport]
    · rw [connectTo_true hconnect,Option.some_inj]
      constructor
      · intro h
        exact htons_injective hq hp (congrArg SockaddrIn.sinPort h).symm
      · rintro rfl
        rfl

end SocketAddresses
end Translib
