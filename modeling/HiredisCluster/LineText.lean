/-
# The text of a CLUSTER NODES reply

The lines of a reply that is made of newline-terminated lines, and the address field
`host:port@cport` as the parser takes it apart.
-/
import HiredisCluster.Numerals
import HiredisCluster.Topology

/-! ## Lines -/

/-- The text of some lines, each ended by a newline. -/
def terminated (lines : List Bytes) : Bytes := lines.flatMap (· ++ [10])

theorem nodesLines_line {l : Bytes} (hl : 10 ∉ l) (rest : Bytes) :
    ∀ (acc : Bytes) {skip : Bool}, skip = false ∨ l ≠ [] →
      nodesLines acc skip (l ++ 10 :: rest) = (acc ++ l) :: nodesLines [] true rest := by
  induction l with
  | nil =>
    intro acc skip hskip
    obtain rfl := hskip.resolve_right fun hno => hno rfl
    rw [List.nil_append, nodesLines, if_pos ⟨rfl, rfl⟩, List.append_nil]
  | cons b l ih =>
    intro acc skip _
    obtain ⟨hb, hl⟩ := not_or.mp (mt List.mem_cons.mpr hl)
    rw [List.cons_append, nodesLines, if_neg fun h => hb h.1.symm, ih hl _ (Or.inl rfl),
      List.append_assoc]
    rfl

/-- Terminated lines are found again. -/
theorem nodesLines_terminated {lines : List Bytes} (h : ∀ l ∈ lines, l ≠ [] ∧ 10 ∉ l) :
    ∀ skip, nodesLines [] skip (terminated lines) = lines := by
  induction lines with
  | nil => exact fun _ => rfl
  | cons l lines ih =>
    intro skip
    obtain ⟨hne, hl⟩ := h l List.mem_cons_self
    have htext : terminated (l :: lines) = l ++ 10 :: terminated lines := by
      rw [terminated, List.flatMap_cons, List.append_assoc]
      rfl
    rw [htext, nodesLines_line hl _ [] (Or.inr hne), ih fun l' hl' => h l' (List.mem_cons_of_mem _ hl'),
      List.nil_append]

/-! ## The last occurrence of a character -/

theorem lastIdx_of_notMem {b : UInt8} {s : Bytes} (h : b ∉ s) : lastIdx b s = none := by
  induction s with
  | nil => rfl
  | cons x s ih =>
    obtain ⟨hx, hs⟩ := not_or.mp (mt List.mem_cons.mpr h)
    rw [lastIdx, ih hs]
    exact if_neg fun heq => hx heq.symm

theorem lastIdx_append {b : UInt8} {t : Bytes} (h : b ∉ t) (s : Bytes) :
    lastIdx b (s ++ b :: t) = some s.length := by
  induction s with
  | nil =>
    rw [List.nil_append, lastIdx, lastIdx_of_notMem h]
    exact if_pos rfl
  | cons x s ih =>
    rw [List.cons_append, lastIdx, ih]
    rfl

/-! ## Addresses -/

theorem ne_of_isDigit {b c : UInt8} (h : isDigit b = true) (hc : isDigit c = false) : c ≠ b :=
  fun heq => by rw [heq, h] at hc; cases hc

/-- An address field: `host:port`, and maybe `@` with what follows it. -/
structure EndpointText where
  host : Bytes
  digits : Bytes
  suffix : Bytes
  noNul : 0 ∉ host
  noAt : 64 ∉ host
  allDigits : ∀ b ∈ digits, isDigit b = true
  port_pos : 1 ≤ numeral 0 digits
  port_le : numeral 0 digits ≤ 65535
  suffix_eq : suffix = [] ∨ ∃ s, suffix = 64 :: s

namespace EndpointText

variable (e : EndpointText)

/-- The part before the `@`. -/
def endpoint : Bytes := e.host ++ 58 :: e.digits

def text : Bytes := e.endpoint ++ e.suffix

def port : ℕ := numeral 0 e.digits

/-- The host that is meant: an empty one is the host that was asked. -/
def hostFor (tcpHost : Bytes) : Bytes := if e.host = [] then tcpHost else e.host

/-- The address that is meant. -/
def addr (tcpHost : Bytes) : Bytes :=
  if e.host = [] then hostPort tcpHost e.port else e.endpoint

theorem notMem_digits {c : UInt8} (hc : isDigit c = false) : c ∉ e.digits :=
  fun hmem => ne_of_isDigit (e.allDigits c hmem) hc rfl

/-- A character that is not in the host, no digit and not the separator is not there. -/
theorem notMem_endpoint {c : UInt8} (hhost : c ∉ e.host) (hdigit : isDigit c = false)
    (hcolon : c ≠ 58) : c ∉ e.endpoint := by
  rw [endpoint, List.mem_append, List.mem_cons]
  rintro (h | h | h)
  · exact hhost h
  · exact hcolon h
  · exact e.notMem_digits hdigit h

theorem noNul_endpoint : 0 ∉ e.endpoint := e.notMem_endpoint e.noNul rfl (by decide)

theorem noAt_endpoint : 64 ∉ e.endpoint := e.notMem_endpoint e.noAt rfl (by decide)

theorem endpoint_ne_nil : e.endpoint ≠ [] :=
  List.append_ne_nil_of_right_ne_nil _ (List.cons_ne_nil _ _)

theorem findIdx?_noAt {s : Bytes} (h : 64 ∉ s) : s.findIdx? (· = 64) = none :=
  List.findIdx?_eq_none_iff.mpr fun _ hb => decide_eq_false fun heq => h (heq ▸ hb)

/-- `@cport` and what follows it is cut off. -/
theorem stripCport_text : stripCport e.text = e.endpoint := by
  unfold stripCport text
  rcases e.suffix_eq with hsuf | ⟨s, hsuf⟩
  · rw [hsuf, List.append_nil, cstr_of_noNul e.noNul_endpoint, findIdx?_noAt e.noAt_endpoint]
  · have hcstr : cstr (e.endpoint ++ 64 :: s) = e.endpoint ++ 64 :: cstr s := by
      unfold cstr
      rw [List.takeWhile_append_of_pos]
      · rw [List.takeWhile_cons_of_pos (by decide)]
      · intro b hb
        exact decide_eq_true fun hb0 => e.noNul_endpoint (hb0 ▸ hb)
    have hfind : (e.endpoint ++ 64 :: cstr s).findIdx? (· = 64) = some e.endpoint.length := by
      rw [List.findIdx?_append, findIdx?_noAt e.noAt_endpoint, List.findIdx?_cons, if_pos (by decide)]
      simp
    rw [hsuf, hcstr, hfind]
    have hpos : 0 < e.endpoint.length := List.length_pos_iff.mpr e.endpoint_ne_nil
    split
    · simp_all
    · simp_all
    · rename_i i heq
      obtain rfl := Option.some.inj heq
      exact List.take_left' rfl

theorem strrchr_endpoint : strrchr e.endpoint 58 = some e.host.length := by
  rw [strrchr, cstr_of_noNul e.noNul_endpoint]
  exact lastIdx_append (e.notMem_digits rfl) e.host

theorem hiAtoi_digits : hiAtoi e.digits = e.port := by
  have hport := e.port_le
  have hne : e.digits ≠ [] := by
    intro hnil
    have hpos := e.port_pos
    rw [hnil] at hpos
    exact absurd hpos (by decide)
  have hlt : numeral 0 e.digits < 2 ^ 31 := by omega
  rw [hiAtoi, if_neg hne]
  exact hiAtoiLoop_eq e.allDigits hlt

/-- **A valid address field is taken apart as it is meant.** -/
theorem nodeOfFields_text (tcpHost : Bytes) {part : List Bytes} (hfield : part.getD 1 [] = e.text)
    (role : Role) : nodeOfFields tcpHost part role = .ok
      { name := some (part.getD 0 []), addr := e.addr tcpHost, host := e.hostFor tcpHost
        port := e.port, role, slots := if role = .master then some [] else none } := by
  have hport : toUint16 (e.port : ℤ) = e.port := by
    have := e.port_le
    rw [toUint16]
    unfold port at *
    omega
  have hdrop : (cstr e.endpoint).drop (e.host.length + 1) = e.digits := by
    rw [cstr_of_noNul e.noNul_endpoint, endpoint, ← List.drop_drop, List.drop_left]
    rfl
  unfold nodeOfFields
  rw [hfield, e.stripCport_text]
  simp only [e.strrchr_endpoint, hdrop, e.hiAtoi_digits, hport]
  rw [if_neg]
  · unfold addr hostFor
    by_cases hhost : e.host = []
    · rw [if_pos hhost, if_pos hhost, if_pos (List.length_eq_zero_iff.mpr hhost)]
    · rw [if_neg hhost, if_neg hhost, if_neg (mt List.length_eq_zero_iff.mp hhost)]
      rw [endpoint, List.take_left' rfl]
  · have hpos := e.port_pos
    have hle := e.port_le
    unfold port
    omega

end EndpointText
