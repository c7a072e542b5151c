/-
  Caap.Query.IdentityToken

  The identity token of a value (`runtime_value_identity_token` of
  `query_service/cache.rs`).

  A token is the unescaped text of a value: elements are joined with `,`, closed with `]`
  or `}`, and a map key ends at `:`.  A text inside a tuple, list or map that holds one of
  these can read as more than one value; without them every token has one reading
  (`token_reads`).
-/

import Caap.Lib.Delimited
import Caap.Lib.Sorting
import Caap.Runtime.Value

namespace Caap

open Std Lib List Option RuntimeValue

/-! ## Tokens -/

/-- `map_key_identity_token`. -/
def mapKeyIdentityToken : MapKey → String
  | .null => "null"
  | .bool value => "bool:" ++ toString value
  | .int value => "int:" ++ toString value.toInt
  | .str value => "str:" ++ value

/-- `{b:02x}`. -/
def hexByte (b : UInt8) : String :=
  String.ofList [Nat.digitChar (b.toNat / 16), Nat.digitChar (b.toNat % 16)]

/-- The order of `items.sort()`: by the first text, then by the second. -/
instance textPairOrd : Ord (String × String) := lexOrd

instance textPairTransOrd : TransOrd (String × String) :=
  inferInstanceAs (TransCmp (compareLex (compareOn Prod.fst) (compareOn Prod.snd)))

section Tokens

-- `{value:?}` of a float
variable (debugF64 : UInt64 → String)

mutual

/-- `runtime_value_identity_token`. -/
def runtimeValueIdentityToken : RuntimeValue → Option String
  | .null => some "null"
  | .bool value => some ("bool:" ++ toString value)
  | .int value => some ("int:" ++ toString value.toInt)
  | .float bits => some ("float:" ++ debugF64 bits)
  | .str value => some ("str:" ++ value)
  | .bytes value =>
    some ("bytes:" ++ toString value.length ++ ":" ++ String.join (value.map hexByte))
  | .tuple items => do
    let items ← itemTokens items
    some ("tuple:[" ++ String.intercalate "," items ++ "]")
  | .list items => do
    let items ← itemTokens items
    some ("list:[" ++ String.intercalate "," items ++ "]")
  | .map entries => do
    let items ← entryTokens entries
    let items := (sort items).map fun (key, value) => key ++ ":" ++ value
    some ("map:\x7b" ++ String.intercalate "," items ++ "\x7d")
  | .handle _ => none
  | .uninitializedTopLevel => some "uninitialized_top_level"

/-- The tokens of a sequence. -/
def itemTokens : List RuntimeValue → Option (List String)
  | [] => some []
  | item :: items => do
    let token ← runtimeValueIdentityToken item
    let tokens ← itemTokens items
    some (token :: tokens)

/-- The tokens of the entries of a map, in insertion order. -/
def entryTokens : List (MapKey × RuntimeValue) → Option (List (String × String))
  | [] => some []
  | (key, value) :: entries => do
    let token ← runtimeValueIdentityToken value
    let tokens ← entryTokens entries
    some ((mapKeyIdentityToken key, token) :: tokens)

end

end Tokens

/-! ## Values without separators -/

namespace RuntimeValue

mutual

/-- Built from null, booleans, integers, texts and bytes with tuples, lists and maps; a map
    holds a key once. -/
def isData : RuntimeValue → Bool
  | .null | .bool _ | .int _ | .str _ | .bytes _ => true
  | .tuple items | .list items => itemsData items
  | .map entries => decide (entries.map Prod.fst).Nodup && entriesData entries
  | .float _ | .handle _ | .uninitializedTopLevel => false

def itemsData : List RuntimeValue → Bool
  | [] => true
  | item :: items => isData item && itemsData items

def entriesData : List (MapKey × RuntimeValue) → Bool
  | [] => true
  | (_, value) :: entries => isData value && entriesData entries

end

/-- The value is no text that holds one of these characters. -/
def freeOf (chars : List Char) : RuntimeValue → Bool
  | .str value => value.toList.all fun c => !chars.contains c
  | _ => true

end RuntimeValue

/-- The key is no text with a colon. -/
def MapKey.colonFree : MapKey → Bool
  | .str value => value.toList.all fun c => c != ':'
  | _ => true

variable {items : List RuntimeValue} {entries : List (MapKey × RuntimeValue)}

namespace RuntimeValue

mutual

/-- No text that stands directly in a tuple or list holds a comma or a closing bracket, none
    that is the value of a map holds a comma or a closing brace, and no key holds a colon.
    A value that is itself a text may hold anything. -/
def separatorFree : RuntimeValue → Bool
  | .tuple items | .list items => itemsSeparatorFree items
  | .map entries => entriesSeparatorFree entries
  | _ => true

def itemsSeparatorFree : List RuntimeValue → Bool
  | [] => true
  | item :: items => (item.freeOf [',', ']'] && separatorFree item) && itemsSeparatorFree items

def entriesSeparatorFree : List (MapKey × RuntimeValue) → Bool
  | [] => true
  | (key, value) :: entries =>
    (key.colonFree && value.freeOf [',', '\x7d'] && separatorFree value) &&
      entriesSeparatorFree entries

end

theorem itemsData_iff : itemsData items = true ↔ ∀ item ∈ items, item.isData = true := by
  induction items with
  | nil => simp [itemsData]
  | cons item items ih => rw [itemsData, Bool.and_eq_true, ih, forall_mem_cons]

theorem entriesData_iff : entriesData entries = true ↔ ∀ e ∈ entries, e.2.isData = true := by
  induction entries with
  | nil => simp [entriesData]
  | cons e entries ih => rw [entriesData, Bool.and_eq_true, ih, forall_mem_cons]

theorem itemsSeparatorFree_iff : itemsSeparatorFree items = true ↔
      ∀ item ∈ items, item.freeOf [',', ']'] = true ∧ item.separatorFree = true := by
  induction items with
  | nil => simp [itemsSeparatorFree]
  | cons item items ih =>
    rw [itemsSeparatorFree, Bool.and_eq_true, Bool.and_eq_true, ih, forall_mem_cons]

theorem entriesSeparatorFree_iff : entriesSeparatorFree entries = true ↔
      ∀ e ∈ entries, (e.1.colonFree = true ∧ e.2.freeOf [',', '\x7d'] = true) ∧
        e.2.separatorFree = true := by
  induction entries with
  | nil => simp [entriesSeparatorFree]
  | cons e entries ih =>
    rw [entriesSeparatorFree, Bool.and_eq_true, Bool.and_eq_true, Bool.and_eq_true, ih,
      forall_mem_cons]

end RuntimeValue

/-! ## Leads -/

/-- What a token begins with. -/
inductive TokenKind where
  | null | bool | int | str | bytes | tuple | list | map
  deriving DecidableEq

def TokenKind.lead : TokenKind → String
  | .null => "null"
  | .bool => "bool:"
  | .int => "int:"
  | .str => "str:"
  | .bytes => "bytes:"
  | .tuple => "tuple:["
  | .list => "list:["
  | .map => "map:\x7b"

namespace TokenKind

theorem eq_of_lead_isPrefix : ∀ k k' : TokenKind, k.lead.toList <+: k'.lead.toList → k = k' := by
  intro k k'
  cases k <;> cases k' <;> decide

/-- No lead begins another, so that a text has one lead. -/
theorem lead_cancel {k k' : TokenKind} {x x' : List Char}
    (h : k.lead.toList ++ x = k'.lead.toList ++ x') : k = k' ∧ x = x' := by
  have hk : k.lead.toList <+: k'.lead.toList ++ x' := h ▸ prefix_append _ _
  have hk' : k'.lead.toList <+: k'.lead.toList ++ x' := prefix_append _ _
  have heq : k = k' := by
    rcases prefix_or_prefix_of_prefix hk hk' with hle | hle
    · exact eq_of_lead_isPrefix k k' hle
    · exact (eq_of_lead_isPrefix k' k hle).symm
  subst heq
  exact ⟨rfl, append_cancel_left h⟩

end TokenKind

/-! ## Keys and bytes -/

/-- The characters that structure a token. -/
def punctuation : List Char := [',', ']', '\x7d', ':']

theorem digit_not_punctuation {c : Char} (h : c.isDigit = true) : c ∉ punctuation := by
  intro hmem
  simp only [punctuation, mem_cons, not_mem_nil, or_false] at hmem
  rcases hmem with rfl | rfl | rfl | rfl <;> exact absurd h (by decide)

theorem toString_nat_not_punctuation (n : Nat) : ∀ c ∈ (toString n).toList, c ∉ punctuation := by
  intro c hc
  have hdigits : c ∈ Nat.toDigits 10 n := by simpa [Nat.repr] using hc
  exact digit_not_punctuation (Nat.isDigit_of_mem_toDigits (by omega) (by omega) hdigits)

theorem toString_int_not_punctuation (i : Int) : ∀ c ∈ (toString i).toList, c ∉ punctuation := by
  intro c hc
  cases i with
  | ofNat n => exact toString_nat_not_punctuation n c hc
  | negSucc n =>
    have htext : (toString (Int.negSucc n)).toList = '-' :: (toString (n + 1)).toList := by
      show ("-" ++ Nat.repr (n + 1)).toList = _
      simp
    rw [htext, mem_cons] at hc
    rcases hc with rfl | hmem
    · decide
    · exact toString_nat_not_punctuation (n + 1) c hmem

variable {k : MapKey} {stop : Char → Prop}

variable {k' : MapKey}

namespace MapKey

/-- The lead of a key's token. -/
def kind : MapKey → TokenKind
  | .null => .null
  | .bool _ => .bool
  | .int _ => .int
  | .str _ => .str

/-- What follows the lead. -/
def body : MapKey → List Char
  | .null => []
  | .bool value => (toString value).toList
  | .int value => (toString value.toInt).toList
  | .str value => value.toList

theorem toList_token (k : MapKey) :
    (mapKeyIdentityToken k).toList = k.kind.lead.toList ++ k.body := by
  cases k <;> simp [mapKeyIdentityToken, kind, body, TokenKind.lead]

theorem eq_of_body (hkind : k.kind = k'.kind) (hbody : k.body = k'.body) : k = k' := by
  cases k with
  | null => cases k' <;> first | rfl | cases hkind
  | bool b =>
    cases k' with
    | bool b' => revert hbody; cases b <;> cases b' <;> decide
    | _ => cases hkind
  | int i =>
    cases k' with
    | int i' =>
      have hrepr : i.toInt.repr = i'.toInt.repr := String.toList_inj.mp hbody
      rw [Int64.toInt_inj.mp (Int.repr_injective hrepr)]
    | _ => cases hkind
  | str s =>
    cases k' with
    | str s' => rw [String.toList_inj.mp (show s.toList = s'.toList from hbody)]
    | _ => cases hkind

/-- A token names one key. -/
theorem token_injective (h : mapKeyIdentityToken k = mapKeyIdentityToken k') : k = k' := by
  have htext := congrArg String.toList h
  rw [toList_token, toList_token] at htext
  obtain ⟨hkind, hbody⟩ := TokenKind.lead_cancel htext
  exact eq_of_body hkind hbody

/-- Only a text can hold punctuation. -/
theorem body_free (hstop : ∀ c, stop c → c ∈ punctuation)
    (hstr : ∀ value, k = .str value → ∀ c ∈ value.toList, ¬ stop c) : ∀ c ∈ k.body, ¬ stop c := by
  intro c hc
  cases k with
  | null => exact absurd hc not_mem_nil
  | bool b =>
    have hplain : ∀ c ∈ (toString b).toList, c ∉ punctuation := by cases b <;> simp [toString, punctuation]
    exact fun h => hplain c hc (hstop c h)
  | int i => exact fun h => toString_int_not_punctuation i.toInt c hc (hstop c h)
  | str value => exact hstr value rfl c hc

theorem delimits (hk : ∀ c ∈ k.body, ¬ stop c) (hk' : ∀ c ∈ k'.body, ¬ stop c) :
    Delimits stop (mapKeyIdentityToken k).toList (mapKeyIdentityToken k').toList := by
  intro rest rest' hrest hrest' h
  rw [toList_token, toList_token] at h ⊢
  rw [append_assoc, append_assoc] at h
  obtain ⟨hkind, hbodies⟩ := TokenKind.lead_cancel h
  obtain ⟨hbody, hrests⟩ := append_cancel_of_stop hk hk' hrest hrest' hbodies
  rw [hkind, hbody]
  exact ⟨rfl, hrests⟩

end MapKey

theorem digitChar_injective : ∀ m < 16, ∀ n < 16, Nat.digitChar m = Nat.digitChar n → m = n := by
  decide

theorem digitChar_not_punctuation : ∀ n < 16, Nat.digitChar n ∉ punctuation := by
  decide

theorem toList_hexByte (b : UInt8) :
    (hexByte b).toList = [Nat.digitChar (b.toNat / 16), Nat.digitChar (b.toNat % 16)] := by
  simp [hexByte]

theorem hexByte_injective {b b' : UInt8} (h : (hexByte b).toList = (hexByte b').toList) :
    b = b' := by
  have hb : b.toNat < 256 := b.toNat_lt
  have hb' : b'.toNat < 256 := b'.toNat_lt
  rw [toList_hexByte, toList_hexByte] at h
  obtain ⟨hhigh, htail⟩ := cons.inj h
  obtain ⟨hlow, -⟩ := cons.inj htail
  have hdiv := digitChar_injective _ (by omega) _ (by omega) hhigh
  have hmod := digitChar_injective _ (by omega) _ (by omega) hlow
  exact UInt8.toNat_inj.mp (by omega)

/-- Two characters a byte. -/
theorem hexBytes_injective {data data' : List UInt8}
    (h : (String.join (data.map hexByte)).toList = (String.join (data'.map hexByte)).toList) :
    data = data' := by
  rw [String.toList_join, String.toList_join, flatMap_map, flatMap_map] at h
  induction data generalizing data' with
  | nil =>
    cases data' with
    | nil => rfl
    | cons b' data' =>
      rw [flatMap_cons, toList_hexByte] at h
      exact absurd h (by simp)
  | cons b data ih =>
    cases data' with
    | nil =>
      rw [flatMap_cons, toList_hexByte] at h
      exact absurd h (by simp)
    | cons b' data' =>
      have hlength : (hexByte b).toList.length = (hexByte b').toList.length := by
        rw [toList_hexByte, toList_hexByte]
        rfl
      obtain ⟨hbyte, hrest⟩ := append_inj h hlength
      rw [hexByte_injective hbyte, ih hrest]

/-- What follows the lead of a token of bytes. -/
def bytesBody (data : List UInt8) : List Char :=
  (toString data.length).toList ++ ':' :: (String.join (data.map hexByte)).toList

theorem bytesBody_injective {data data' : List UInt8} (h : bytesBody data = bytesBody data') :
    data = data' := by
  have hfree (n : Nat) : ∀ c ∈ (toString n).toList, ¬ c = ':' := by
    rintro c hc rfl
    exact toString_nat_not_punctuation n ':' hc (by decide)
  obtain ⟨-, hhex⟩ := append_cancel_of_stop (hfree _) (hfree _) (atStop_cons.mpr rfl)
    (atStop_cons.mpr rfl) h
  exact hexBytes_injective (cons.inj hhex).2

theorem bytesBody_free (data : List UInt8) {c : Char} (hc : c ∈ bytesBody data) :
    c ∉ punctuation ∨ c = ':' := by
  rw [bytesBody, mem_append, mem_cons, String.toList_join, flatMap_map,
    mem_flatMap] at hc
  rcases hc with hlength | rfl | ⟨b, -, hhex⟩
  · exact .inl (toString_nat_not_punctuation _ c hlength)
  · exact .inr rfl
  · have hb : b.toNat < 256 := b.toNat_lt
    rw [toList_hexByte, mem_cons, mem_singleton] at hhex
    rcases hhex with rfl | rfl
    · exact .inl (digitChar_not_punctuation _ (by omega))
    · exact .inl (digitChar_not_punctuation _ (by omega))

/-! ## Reading a token -/

namespace RuntimeValue

/-- The lead of a value's token; none for what is no data. -/
def kind : RuntimeValue → Option TokenKind
  | .null => some .null
  | .bool _ => some .bool
  | .int _ => some .int
  | .str _ => some .str
  | .bytes _ => some .bytes
  | .tuple _ => some .tuple
  | .list _ => some .list
  | .map _ => some .map
  | .float _ | .handle _ | .uninitializedTopLevel => none

/-- A key as a value. -/
def ofKey : MapKey → RuntimeValue
  | .null => .null
  | .bool b => .bool b
  | .int i => .int i
  | .str s => .str s

end RuntimeValue

section Reading

variable {debugF64 : UInt64 → String}

theorem token_ofKey (k : MapKey) :
    runtimeValueIdentityToken debugF64 (.ofKey k) = some (mapKeyIdentityToken k) := by
  cases k <;> rfl

theorem token_bytes (data : List UInt8) :
    ∃ s, runtimeValueIdentityToken debugF64 (.bytes data) = some s ∧
      s.toList = TokenKind.bytes.lead.toList ++ bytesBody data :=
  ⟨_, rfl, by simp [bytesBody, TokenKind.lead]⟩

/-- The value is a tuple or a list of these items. -/
def IsSequence (kind : TokenKind) (items : List RuntimeValue) (v : RuntimeValue) : Prop :=
  v = .tuple items ∧ kind = .tuple ∨ v = .list items ∧ kind = .list

variable {v : RuntimeValue} {s : String}

/-- The text of a tuple or list after its lead. -/
theorem token_sequence {kind : TokenKind} (hv : IsSequence kind items v)
    (h : runtimeValueIdentityToken debugF64 v = some s) :
    ∃ ts, itemTokens debugF64 items = some ts ∧
      s.toList = kind.lead.toList ++ ([','].intercalate (ts.map String.toList) ++ [']']) := by
  rcases hv with ⟨rfl, rfl⟩ | ⟨rfl, rfl⟩
  all_goals
    rw [runtimeValueIdentityToken] at h
    obtain ⟨ts, hts, heq⟩ := bind_eq_some_iff.mp h
    refine ⟨ts, hts, ?_⟩
    rw [← some.inj heq]
    simp [TokenKind.lead, String.toList_intercalate]

/-- The text of a map after its lead. -/
theorem token_map (h : runtimeValueIdentityToken debugF64 (.map entries) = some s) :
    ∃ ps, entryTokens debugF64 entries = some ps ∧ s.toList = TokenKind.map.lead.toList ++
        ([','].intercalate ((sort ps).map fun p => p.1.toList ++ ':' :: p.2.toList) ++ ['\x7d']) := by
  rw [runtimeValueIdentityToken] at h
  obtain ⟨ps, hps, heq⟩ := bind_eq_some_iff.mp h
  refine ⟨ps, hps, ?_⟩
  rw [← some.inj heq]
  simp [TokenKind.lead, String.toList_intercalate, Function.comp_def]

theorem forall₂_itemTokens {ts : List String} (h : itemTokens debugF64 items = some ts) :
    List.Forall₂ (fun v t => runtimeValueIdentityToken debugF64 v = some t) items ts := by
  induction items generalizing ts with
  | nil =>
    rw [← some.inj h]
    exact .nil
  | cons v items ih =>
    obtain ⟨t, ht, hrest⟩ := bind_eq_some_iff.mp h
    obtain ⟨us, hus, heq⟩ := bind_eq_some_iff.mp hrest
    rw [← some.inj heq]
    exact .cons ht (ih hus)

theorem forall₂_entryTokens {ps : List (String × String)}
    (h : entryTokens debugF64 entries = some ps) :
    List.Forall₂ (fun e p => mapKeyIdentityToken e.1 = p.1 ∧
      runtimeValueIdentityToken debugF64 e.2 = some p.2) entries ps := by
  induction entries generalizing ps with
  | nil =>
    rw [← some.inj h]
    exact .nil
  | cons e entries ih =>
    obtain ⟨t, ht, hrest⟩ := bind_eq_some_iff.mp h
    obtain ⟨us, hus, heq⟩ := bind_eq_some_iff.mp hrest
    rw [← some.inj heq]
    exact .cons ⟨rfl, ht⟩ (ih hus)

/-- The token of data begins with the lead of its kind. -/
theorem lead_of_token (hv : v.isData = true) (h : runtimeValueIdentityToken debugF64 v = some s) :
    ∃ kind body, v.kind = some kind ∧ s.toList = kind.lead.toList ++ body := by
  have hkey (k : MapKey) (heq : v = .ofKey k) :
      ∃ kind body, v.kind = some kind ∧ s.toList = kind.lead.toList ++ body := by
    rw [heq, token_ofKey] at h
    rw [← some.inj h, heq]
    exact ⟨k.kind, k.body, by cases k <;> rfl, k.toList_token⟩
  cases v with
  | null => exact hkey .null rfl
  | bool b => exact hkey (.bool b) rfl
  | int i => exact hkey (.int i) rfl
  | str value => exact hkey (.str value) rfl
  | bytes data =>
    obtain ⟨t, ht, htext⟩ := token_bytes data
    rw [ht] at h
    exact ⟨.bytes, bytesBody data, rfl, some.inj h ▸ htext⟩
  | tuple items =>
    obtain ⟨ts, -, htext⟩ := token_sequence (.inl ⟨rfl, rfl⟩) h
    exact ⟨.tuple, _, rfl, htext⟩
  | list items =>
    obtain ⟨ts, -, htext⟩ := token_sequence (.inr ⟨rfl, rfl⟩) h
    exact ⟨.list, _, rfl, htext⟩
  | map entries =>
    obtain ⟨ps, -, htext⟩ := token_map h
    exact ⟨.map, _, rfl, htext⟩
  | float _ | handle _ | uninitializedTopLevel => simp [isData] at hv

/-- The tokens of the two values end at the same place before a stop character, and only
    equal values have equal ones. -/
def Reads (debugF64 : UInt64 → String) (stop : Char → Prop) (v w : RuntimeValue) : Prop :=
  ∀ s t, runtimeValueIdentityToken debugF64 v = some s →
    runtimeValueIdentityToken debugF64 w = some t →
    Delimits stop s.toList t.toList ∧ (s = t → v.deepEqual w = true)

variable {w : RuntimeValue}

/-- Tokens of different kinds have different leads. -/
theorem reads_of_kind (hv : v.isData = true)
    (hw : w.isData = true) (h : v.kind = w.kind → Reads debugF64 stop v w) :
    Reads debugF64 stop v w := by
  intro s t hs ht
  obtain ⟨k, body, hk, htext⟩ := lead_of_token hv hs
  obtain ⟨k', body', hk', htext'⟩ := lead_of_token hw ht
  by_cases heq : k = k'
  · exact h (by rw [hk, hk', heq]) s t hs ht
  · refine ⟨fun rest rest' _ _ hcat => absurd ?_ heq, fun hst => absurd ?_ heq⟩
    · rw [htext, htext', append_assoc, append_assoc] at hcat
      exact (TokenKind.lead_cancel hcat).1
    · have htexts := congrArg String.toList hst
      rw [htext, htext'] at htexts
      exact (TokenKind.lead_cancel htexts).1

theorem begins_lead (k : TokenKind) : ∃ c rest, k.lead.toList = c :: rest ∧ c ∉ punctuation := by
  cases k <;> exact ⟨_, _, rfl, by decide⟩

theorem begins_of_lead (hstop : ∀ c, stop c → c ∈ punctuation)
    (k : TokenKind) (body : List Char) : Begins stop (k.lead.toList ++ body) := by
  obtain ⟨c, rest, hlead, hc⟩ := begins_lead k
  rw [hlead]
  exact ⟨c, rfl, fun h => hc (hstop c h)⟩

theorem reads_ofKey (hk : ∀ c ∈ k.body, ¬ stop c)
    (hk' : ∀ c ∈ k'.body, ¬ stop c) : Reads debugF64 stop (.ofKey k) (.ofKey k') := by
  intro s t hs ht
  rw [token_ofKey] at hs ht
  rw [← some.inj hs, ← some.inj ht]
  refine ⟨MapKey.delimits hk hk', fun heq => ?_⟩
  rw [MapKey.token_injective heq]
  cases k' <;> simp [ofKey, deepEqual]

theorem reads_bytes (hstop : ∀ c, stop c → c ∈ punctuation)
    (hcolon : ¬ stop ':') (data data' : List UInt8) :
    Reads debugF64 stop (.bytes data) (.bytes data') := by
  intro s t hs ht
  obtain ⟨s', hs', htext⟩ := token_bytes data
  obtain ⟨t', ht', htext'⟩ := token_bytes data'
  rw [hs'] at hs
  rw [ht'] at ht
  rw [← some.inj hs, ← some.inj ht]
  have hfree (data : List UInt8) : ∀ c ∈ bytesBody data, ¬ stop c := by
    intro c hc h
    rcases bytesBody_free data hc with hplain | rfl
    · exact hplain (hstop c h)
    · exact hcolon h
  constructor
  · intro rest rest' hrest hrest' hcat
    rw [htext, htext'] at hcat ⊢
    rw [append_assoc, append_assoc] at hcat
    obtain ⟨hbody, hrests⟩ := append_cancel_of_stop (hfree data) (hfree data') hrest hrest'
      (append_cancel_left hcat)
    rw [hbody]
    exact ⟨rfl, hrests⟩
  · intro heq
    have htexts := congrArg String.toList heq
    rw [htext, htext'] at htexts
    rw [bytesBody_injective (append_cancel_left htexts)]
    simp [deepEqual]

/-- A text that its last bracket closes delimits itself; `X` is what its inside shows. -/
theorem closed_reads {X : Prop} {lead inside inside' : List Char}
    {close : Char} {t : String} (hs : s.toList = lead ++ (inside ++ [close]))
    (ht : t.toList = lead ++ (inside' ++ [close]))
    (hcancel : ∀ rest rest', inside ++ close :: rest = inside' ++ close :: rest' →
      X ∧ rest = rest') (hX : X → inside = inside') :
    Delimits stop s.toList t.toList ∧ (s = t → X) := by
  constructor
  · intro rest rest' _ _ hcat
    rw [hs, ht, append_assoc, append_assoc, append_assoc, append_assoc] at hcat
    obtain ⟨hx, hrests⟩ := hcancel rest rest' (append_cancel_left hcat)
    rw [hs, ht, hX hx]
    exact ⟨rfl, hrests⟩
  · intro heq
    have htexts := congrArg String.toList heq
    rw [hs, ht] at htexts
    exact (hcancel [] [] (append_cancel_left htexts)).1

/-- The characters that may follow an element of a tuple or list. -/
abbrev itemStop (c : Char) : Prop := c ∈ [',', ']']

/-- The characters that may follow the value of a map's entry. -/
abbrev entryStop (c : Char) : Prop := c ∈ [',', '\x7d']

theorem itemStop_punctuation (c : Char) (h : itemStop c) : c ∈ punctuation := by
  simp only [itemStop, punctuation, mem_cons, not_mem_nil, or_false] at h ⊢
  tauto

theorem entryStop_punctuation (c : Char) (h : entryStop c) : c ∈ punctuation := by
  simp only [entryStop, punctuation, mem_cons, not_mem_nil, or_false] at h ⊢
  tauto

theorem begins_of_token (hstop : ∀ c, stop c → c ∈ punctuation) (hv : v.isData = true)
    (h : runtimeValueIdentityToken debugF64 v = some s) : Begins stop s.toList := by
  obtain ⟨k, body, -, htext⟩ := lead_of_token hv h
  rw [htext]
  exact begins_of_lead hstop k body

section Sequence

variable {items items' : List RuntimeValue} {ts us : List String}

section

variable (hts : itemTokens debugF64 items = some ts)

include hts

/-- A text of the tokens belongs to one of the values. -/
theorem exists_of_mem_tokens {text : List Char}
    (hmem : text ∈ ts.map String.toList) :
    ∃ v ∈ items, ∃ t, runtimeValueIdentityToken debugF64 v = some t ∧ t.toList = text := by
  obtain ⟨t, ht, rfl⟩ := mem_map.mp hmem
  obtain ⟨v, hv, htoken⟩ := exists_of_forall₂_right (forall₂_itemTokens hts) ht
  exact ⟨v, hv, t, htoken, rfl⟩

theorem begins_of_mem_tokens
    (hdata : ∀ v ∈ items, v.isData = true) {text : List Char}
    (hmem : text ∈ ts.map String.toList) : Begins itemStop text := by
  obtain ⟨v, hv, t, htoken, rfl⟩ := exists_of_mem_tokens hts hmem
  exact begins_of_token itemStop_punctuation (hdata v hv) htoken

theorem sequence_cancel
    (hus : itemTokens debugF64 items' = some us) (hdata : ∀ v ∈ items, v.isData = true)
    (hdata' : ∀ w ∈ items', w.isData = true)
    (hreads : ∀ v ∈ items, ∀ w ∈ items', Reads debugF64 itemStop v w) (rest rest' : List Char)
    (h : [','].intercalate (ts.map String.toList) ++ ']' :: rest =
      [','].intercalate (us.map String.toList) ++ ']' :: rest') : ts = us ∧ rest = rest' := by
  have hdelim : ∀ text ∈ ts.map String.toList, ∀ text' ∈ us.map String.toList,
      Delimits itemStop text text' := by
    intro text htext text' htext'
    obtain ⟨v, hv, t, htoken, rfl⟩ := exists_of_mem_tokens hts htext
    obtain ⟨w, hw, u, htoken', rfl⟩ := exists_of_mem_tokens hus htext'
    exact (hreads v hv w hw t u htoken htoken').1
  obtain ⟨htexts, hrests⟩ := joined_cancel (by decide) (by decide) (by decide) hdelim
    (fun _ => begins_of_mem_tokens hts hdata) (fun _ => begins_of_mem_tokens hus hdata') h
  exact ⟨map_injective_iff.mpr (fun _ _ => String.toList_inj.mp) htexts, hrests⟩

theorem sequence_deepEqual
    (hus : itemTokens debugF64 items' = some ts)
    (hreads : ∀ v ∈ items, ∀ w ∈ items', Reads debugF64 itemStop v w) :
    items.length = items'.length ∧ deepEqualZip items items' = true := by
  have hequal : List.Forall₂ (fun v w => v.deepEqual w = true) items items' := by
    refine forall₂_of_common (forall₂_itemTokens hts) (forall₂_itemTokens hus) ?_
    intro v hv w hw t htoken htoken'
    exact (hreads v hv w hw t t htoken htoken').2 rfl
  exact ⟨hequal.length_eq, deepEqualZip_of_forall₂ hequal⟩

end

end Sequence

section Entries

variable {entries entries' : List (MapKey × RuntimeValue)} {ps qs : List (String × String)}

/-- The text of an entry. -/
def entryText (p : String × String) : List Char := p.1.toList ++ ':' :: p.2.toList

/-- What an entry and its tokens have in common. -/
def EntryToken (debugF64 : UInt64 → String) (e : MapKey × RuntimeValue) (p : String × String) :
    Prop :=
  mapKeyIdentityToken e.1 = p.1 ∧ runtimeValueIdentityToken debugF64 e.2 = some p.2

variable {p : String × String}

theorem exists_of_mem_sort (hps : entryTokens debugF64 entries = some ps)
    (hmem : p ∈ sort ps) : ∃ e ∈ entries, EntryToken debugF64 e p :=
  exists_of_forall₂_right (forall₂_entryTokens hps) (mem_sort.mp hmem)

theorem MapKey.colonFree_body (h : k.colonFree = true) : ∀ c ∈ k.body, ¬ c = ':' := by
  refine MapKey.body_free (fun c hc => by rw [hc]; decide) ?_
  rintro value rfl c hc
  simpa using all_eq_true.mp h c hc

/-- The key ends at the colon, the value where the entry ends. -/
theorem entry_delimits {e e' : MapKey × RuntimeValue} {q : String × String}
    (hp : EntryToken debugF64 e p) (hq : EntryToken debugF64 e' q)
    (hkey : e.1.colonFree = true) (hkey' : e'.1.colonFree = true)
    (hreads : Reads debugF64 entryStop e.2 e'.2) {rest rest' : List Char}
    (hrest : AtStop entryStop rest) (hrest' : AtStop entryStop rest')
    (h : entryText p ++ rest = entryText q ++ rest') : p = q ∧ rest = rest' := by
  obtain ⟨hkeys, hvalue⟩ := hp
  obtain ⟨hkeys', hvalue'⟩ := hq
  rw [entryText, entryText, append_assoc, append_assoc, cons_append,
    cons_append, ← hkeys, ← hkeys'] at h
  obtain ⟨hkeyText, hafter⟩ := MapKey.delimits (MapKey.colonFree_body hkey)
    (MapKey.colonFree_body hkey') _ _ (atStop_cons.mpr rfl) (atStop_cons.mpr rfl) h
  obtain ⟨hvalueText, hrests⟩ := (hreads _ _ hvalue hvalue').1 rest rest' hrest hrest'
    (cons.inj hafter).2
  have hfst : p.1 = q.1 := by
    rw [← hkeys, ← hkeys']
    exact String.toList_inj.mp hkeyText
  exact ⟨Prod.ext hfst (String.toList_inj.mp hvalueText), hrests⟩

theorem begins_entryText {e : MapKey × RuntimeValue}
    (h : EntryToken debugF64 e p) : Begins entryStop (entryText p) := by
  rw [entryText, ← h.1, MapKey.toList_token, append_assoc]
  exact begins_of_lead entryStop_punctuation _ _

theorem entries_cancel (hps : entryTokens debugF64 entries = some ps)
    (hqs : entryTokens debugF64 entries' = some qs) (hkeys : ∀ e ∈ entries, e.1.colonFree = true)
    (hkeys' : ∀ e ∈ entries', e.1.colonFree = true)
    (hreads : ∀ e ∈ entries, ∀ e' ∈ entries', Reads debugF64 entryStop e.2 e'.2)
    (rest rest' : List Char) (h : [','].intercalate ((sort ps).map entryText) ++ '\x7d' :: rest =
      [','].intercalate ((sort qs).map entryText) ++ '\x7d' :: rest') :
    sort ps = sort qs ∧ rest = rest' := by
  have hentry : ∀ p ∈ sort ps, ∀ q ∈ sort qs, ∀ rest rest', AtStop entryStop rest →
      AtStop entryStop rest' → entryText p ++ rest = entryText q ++ rest' →
      p = q ∧ rest = rest' := by
    intro p hp q hq rest rest' hrest hrest' heq
    obtain ⟨e, he, htoken⟩ := exists_of_mem_sort hps hp
    obtain ⟨e', he', htoken'⟩ := exists_of_mem_sort hqs hq
    exact entry_delimits htoken htoken' (hkeys e he) (hkeys' e' he') (hreads e he e' he')
      hrest hrest' heq
  have hdelim : ∀ text ∈ (sort ps).map entryText, ∀ text' ∈ (sort qs).map entryText,
      Delimits entryStop text text' := by
    intro text htext text' htext' rest rest' hrest hrest' heq
    obtain ⟨p, hp, rfl⟩ := mem_map.mp htext
    obtain ⟨q, hq, rfl⟩ := mem_map.mp htext'
    obtain ⟨rfl, hrests⟩ := hentry p hp q hq rest rest' hrest hrest' heq
    exact ⟨rfl, hrests⟩
  have hbegins {entries : List (MapKey × RuntimeValue)} {ps : List (String × String)}
      (hps : entryTokens debugF64 entries = some ps) :
      ∀ text ∈ (sort ps).map entryText, Begins entryStop text := by
    intro text htext
    obtain ⟨p, hp, rfl⟩ := mem_map.mp htext
    obtain ⟨e, -, htoken⟩ := exists_of_mem_sort hps hp
    exact begins_entryText htoken
  obtain ⟨htexts, hrests⟩ := joined_cancel (by decide) (by decide) (by decide) hdelim
    (hbegins hps) (hbegins hqs) h
  refine ⟨eq_of_map_eq htexts fun p hp q hq heq => ?_, hrests⟩
  exact (hentry p hp q hq [] [] atStop_nil atStop_nil (by rw [heq])).1

/-- Maps with the same sorted tokens hold equal values under the same keys. -/
theorem entries_deepEqual (hps : entryTokens debugF64 entries = some ps)
    (hqs : entryTokens debugF64 entries' = some qs) (hsort : sort ps = sort qs)
    (hnodup : (entries'.map Prod.fst).Nodup)
    (hreads : ∀ e ∈ entries, ∀ e' ∈ entries', Reads debugF64 entryStop e.2 e'.2) :
    entries.length = entries'.length ∧ deepEqualEntries entries entries' = true := by
  constructor
  · calc
      entries.length = ps.length := (forall₂_entryTokens hps).length_eq
      _ = (sort ps).length := (length_insertionSort ..).symm
      _ = (sort qs).length := by rw [hsort]
      _ = qs.length := length_insertionSort ..
      _ = entries'.length := (forall₂_entryTokens hqs).length_eq.symm
  · apply deepEqualEntries_of_forall
    intro e he
    obtain ⟨p, hp, hkey, hvalue⟩ := exists_of_forall₂_left (forall₂_entryTokens hps) he
    have hp' : p ∈ sort qs := hsort ▸ mem_sort.mpr hp
    obtain ⟨e', he', hkey', hvalue'⟩ := exists_of_mem_sort hqs hp'
    have hsame : e.1 = e'.1 := MapKey.token_injective (hkey.trans hkey'.symm)
    refine ⟨e'.2, ?_, (hreads e he e' he' p.2 p.2 hvalue hvalue').2 rfl⟩
    rw [hsame]
    exact lookup_of_mem hnodup he'

end Entries

section Values

variable {stops : List Char}

/-- A text without the characters, as a key. -/
theorem freeOf_body (h : (str s).freeOf stops = true) :
    ∀ c ∈ (MapKey.str s).body, ¬ c ∈ stops := by
  intro c hc
  simpa using all_eq_true.mp h c hc

/-- Values that a key can hold and that are no texts. -/
theorem reads_plain (hstops : ∀ c ∈ stops, c ∈ punctuation) (k k' : MapKey)
    (hk : ∀ s, k ≠ .str s) (hk' : ∀ s, k' ≠ .str s) :
    Reads debugF64 (· ∈ stops) (.ofKey k) (.ofKey k') :=
  reads_ofKey (MapKey.body_free hstops fun s hs => absurd hs (hk s))
    (MapKey.body_free hstops fun s hs => absurd hs (hk' s))

theorem reads_sequence {kind : TokenKind}
    {items' : List RuntimeValue} (hv : IsSequence kind items v) (hw : IsSequence kind items' w)
    (hequals : v.deepEqual w =
      (items.length == items'.length && deepEqualZip items items'))
    (hdata : ∀ v ∈ items, v.isData = true) (hdata' : ∀ w ∈ items', w.isData = true)
    (hreads : ∀ v ∈ items, ∀ w ∈ items', Reads debugF64 itemStop v w) :
    Reads debugF64 stop v w := by
  intro s t hs ht
  obtain ⟨ts, hts, htext⟩ := token_sequence hv hs
  obtain ⟨us, hus, htext'⟩ := token_sequence hw ht
  obtain ⟨hdelim, hequal⟩ := closed_reads htext htext'
    (sequence_cancel hts hus hdata hdata' hreads) (fun heq => by rw [heq])
  refine ⟨hdelim, fun heq => ?_⟩
  obtain ⟨hlength, hzip⟩ := sequence_deepEqual hts (hequal heq ▸ hus) hreads
  rw [hequals, hzip, hlength, beq_self_eq_true, Bool.and_self]

theorem reads_map {entries' : List (MapKey × RuntimeValue)}
    (hkeys : ∀ e ∈ entries, e.1.colonFree = true) (hkeys' : ∀ e ∈ entries', e.1.colonFree = true)
    (hnodup : (entries'.map Prod.fst).Nodup)
    (hreads : ∀ e ∈ entries, ∀ e' ∈ entries', Reads debugF64 entryStop e.2 e'.2) :
    Reads debugF64 stop (.map entries) (.map entries') := by
  intro s t hs ht
  obtain ⟨ps, hps, htext⟩ := token_map hs
  obtain ⟨qs, hqs, htext'⟩ := token_map ht
  obtain ⟨hdelim, hequal⟩ := closed_reads htext htext'
    (entries_cancel hps hqs hkeys hkeys' hreads) (fun heq => by rw [heq])
  refine ⟨hdelim, fun heq => ?_⟩
  obtain ⟨hlength, hentries⟩ := entries_deepEqual hps hqs (hequal heq) hnodup hreads
  rw [deepEqual, hentries, hlength, beq_self_eq_true, Bool.and_self]

/-- Data that may stand before one of the characters. -/
structure Readable (stops : List Char) (v : RuntimeValue) : Prop where
  data : v.isData = true
  separatorFree : v.separatorFree = true
  plain : v.freeOf stops = true

/-- An element of a tuple or list stands before a comma or the bracket. -/
theorem readable_item (hdata : itemsData items = true)
    (hfree : itemsSeparatorFree items = true) :
    ∀ v ∈ items, Readable [',', ']'] v := by
  intro v hv
  obtain ⟨hplain, hinside⟩ := itemsSeparatorFree_iff.mp hfree v hv
  exact ⟨itemsData_iff.mp hdata v hv, hinside, hplain⟩

/-- Every token of data without separators has one reading. -/
theorem token_reads (v : RuntimeValue) {stops : List Char}
    (hstops : ∀ c ∈ stops, c ∈ punctuation) (hcolon : ':' ∉ stops) (hv : Readable stops v)
    (hw : Readable stops w) : Reads debugF64 (· ∈ stops) v w := by
  -- by induction on the first value; the second is of the same kind
  induction v using ind generalizing w stops with
    (refine reads_of_kind hv.data hw.data fun hkind => ?_; cases w <;> try cases hkind)
  | null => exact reads_plain hstops .null .null nofun nofun
  | bool b =>
    rename_i b'
    exact reads_plain hstops (.bool b) (.bool b') nofun nofun
  | int i =>
    rename_i i'
    exact reads_plain hstops (.int i) (.int i') nofun nofun
  | str s => exact reads_ofKey (freeOf_body hv.plain) (freeOf_body hw.plain)
  | bytes data => exact reads_bytes hstops hcolon data _
  | tuple items ih =>
    have hitems := readable_item hv.data hv.separatorFree
    have hitems' := readable_item hw.data hw.separatorFree
    exact reads_sequence (.inl ⟨rfl, rfl⟩) (.inl ⟨rfl, rfl⟩) rfl (fun v h => (hitems v h).data)
      (fun w h => (hitems' w h).data) fun v h w h' =>
        ih v h itemStop_punctuation (by decide) (hitems v h) (hitems' w h')
  | list items ih =>
    have hitems := readable_item hv.data hv.separatorFree
    have hitems' := readable_item hw.data hw.separatorFree
    exact reads_sequence (.inr ⟨rfl, rfl⟩) (.inr ⟨rfl, rfl⟩) rfl (fun v h => (hitems v h).data)
      (fun w h => (hitems' w h).data) fun v h w h' =>
        ih v h itemStop_punctuation (by decide) (hitems v h) (hitems' w h')
  | map entries ih =>
    obtain ⟨-, hdata⟩ := Bool.and_eq_true_iff.mp hv.data
    obtain ⟨hnodup, hdata'⟩ := Bool.and_eq_true_iff.mp hw.data
    have hentries := entriesSeparatorFree_iff.mp hv.separatorFree
    have hentries' := entriesSeparatorFree_iff.mp hw.separatorFree
    refine reads_map (fun e he => (hentries e he).1.1) (fun e he => (hentries' e he).1.1)
      (of_decide_eq_true hnodup) fun e he e' he' => ?_
    exact ih e he entryStop_punctuation (by decide)
      ⟨entriesData_iff.mp hdata e he, (hentries e he).2, (hentries e he).1.2⟩
      ⟨entriesData_iff.mp hdata' e' he', (hentries' e' he').2, (hentries' e' he').1.2⟩
  | float _ | handle _ | uninitializedTopLevel => cases hv.data

end Values

/-- Data without separators inside has its own token.  A text that is the whole value may
    hold any character. -/
theorem deepEqual_of_token_eq (hv : v.isData = true) (hw : w.isData = true)
    (hfree : v.separatorFree = true) (hfree' : w.separatorFree = true)
    (hs : runtimeValueIdentityToken debugF64 v = some s)
    (ht : runtimeValueIdentityToken debugF64 w = some s) : v.deepEqual w = true := by
  -- with no character to stop at, nothing is asked of the value itself
  have hplain (v : RuntimeValue) : v.freeOf [] = true := by cases v <;> simp [freeOf]
  have hnone : ∀ c ∈ ([] : List Char), c ∈ punctuation := by simp
  exact (token_reads v hnone not_mem_nil ⟨hv, hfree, hplain v⟩ ⟨hw, hfree', hplain w⟩
    s s hs ht).2 rfl

end Reading

end Caap
