import NordLang.Proofs.Command.Verbosity
import NordLang.Proofs.Json.Rendering
import NordLang.Proofs.Layout.Source

/-!
# Listings of tokens

The listing of the tokens of a text has one line for each of them, and it tells their kinds,
payloads and places (`run_tokens_lists`).

* `Token.all_isPrintable_shown` says that a token is shown in printable characters, whatever text it
  carries.  None of them is a line feed, so `linesOf` finds the tokens again.
* `Token.Lexed.shown_inj` reads the parts of a token back from the left to the right.  The kind ends
  at the first comma, and it settles what sort of payload follows.
-/

namespace NordLang

open Text

/-! ## Lines -/

/-- The lines of a text, with line feeds between them.  An empty text has no line. -/
def Text.linesOf (text : List Char) : List (List Char) :=
  if text = [] then [] else text.splitOn '\n'

theorem Text.linesOf_intercalate {lines : List (List Char)} (hline : ∀ l ∈ lines, '\n' ∉ l)
    (hne : ∀ l ∈ lines, l ≠ []) : linesOf (['\n'].intercalate lines) = lines := by
  cases lines with
  | nil => rfl
  | cons l lines =>
    have hsplit := List.splitOn_intercalate '\n' hline (List.cons_ne_nil l lines)
    have htext : ['\n'].intercalate (l :: lines) ≠ [] := by
      intro hnil
      rw [hnil] at hsplit
      exact hne l List.mem_cons_self (List.cons.inj hsplit).1.symm
    rw [linesOf, if_neg htext]
    exact hsplit

/-! ## Shown in printable characters -/

theorem all_isPrintable_toDigits (n : Nat) : (Nat.toDigits 10 n).all isPrintable = true :=
  List.all_eq_true.2 fun _ hc =>
    isPrintable_of_isDigit (Nat.isDigit_of_mem_toDigits (by decide) (by decide) hc)

theorem all_isPrintable_int (n : Int) : (toString n).toList.all isPrintable = true := by
  cases n with
  | ofNat n =>
    rw [Json.toList_toString_ofNat]
    exact all_isPrintable_toDigits n
  | negSucc n =>
    rw [Json.toList_toString_negSucc, List.all_cons, all_isPrintable_toDigits, Bool.and_true]
    decide

namespace Scalar

theorem all_isPrintable_decimalText (mantissa : Int) (places : Nat) :
    (decimalText mantissa places).toList.all isPrintable = true := by
  have hsign : (if mantissa < 0 then "-" else "").toList.all isPrintable = true := by
    split <;> decide
  have hplaces (k n : Nat) :
      ∀ c ∈ List.replicate k '0' ++ Nat.toDigits 10 n, isPrintable c = true := by
    intro c hc
    rcases List.mem_append.1 hc with hc | hc
    · rw [List.eq_of_mem_replicate hc]
      decide
    · exact List.all_eq_true.1 (all_isPrintable_toDigits n) c hc
  have hkept {digits : List Char} (h : ∀ c ∈ digits, isPrintable c = true) :
      (if (digits.reverse.dropWhile (· == '0')).reverse.isEmpty then "0"
        else String.ofList (digits.reverse.dropWhile (· == '0')).reverse).toList.all isPrintable =
          true := by
    split
    · decide
    · rw [String.toList_ofList]
      refine List.all_eq_true.2 fun c hc => h c ?_
      exact List.mem_reverse.1 ((List.dropWhile_sublist _).mem (List.mem_reverse.1 hc))
  have hwhole (n : Nat) : (toString n).toList.all isPrintable = true := all_isPrintable_int n
  simp only [decimalText, String.toList_append, List.all_append, Bool.and_eq_true]
  exact ⟨⟨⟨hsign, hwhole _⟩, by decide⟩, hkept (hplaces _ _)⟩

theorem all_isPrintable_shown (v : Scalar) : v.shown.toList.all isPrintable = true := by
  cases v with
  | null => decide
  | bool b => cases b <;> decide
  | int n => exact all_isPrintable_int n
  | decimal mantissa places => exact all_isPrintable_decimalText mantissa places
  | text s =>
    rw [shown, quote, String.toList_ofList]
    exact List.all_eq_true.2 fun c hc => isPrintable_of_mem_quoteChars hc

end Scalar

namespace Token

theorem toList_shown (t : Token) :
    t.shown.toList = ['T', 'o', 'k', 'e', 'n', '('] ++ (t.kind.name.toList ++ ',' :: ' ' ::
      (t.value.shown.toList ++ ',' :: ' ' :: 'L' :: ((toString t.loc.line).toList ++ ':' ::
        ((toString t.loc.column).toList ++ [')'])))) := by
  simp only [shown, String.toList_append, List.append_assoc]
  rfl

/-- A token is shown in printable characters, whatever it carries. -/
theorem all_isPrintable_shown (t : Token) : t.shown.toList.all isPrintable = true := by
  have hname : t.kind.name.toList.all isPrintable = true := by cases t.kind <;> decide
  have hvalue := t.value.all_isPrintable_shown
  rw [toList_shown]
  simp only [List.all_append, List.all_cons, hname, hvalue, all_isPrintable_int]
  decide

theorem lineFeed_not_mem_shown (t : Token) : '\n' ∉ t.shown.toList := by
  intro hmem
  have hprintable := List.all_eq_true.1 t.all_isPrintable_shown _ hmem
  revert hprintable
  decide

theorem shown_ne_nil (t : Token) : t.shown.toList ≠ [] := by
  rw [toList_shown]
  exact List.cons_ne_nil _ _

end Token

/-! ## Tokens that are shown alike -/

theorem TokenKind.name_injective {kind kind' : TokenKind} (h : kind.name = kind'.name) :
    kind = kind' := by
  have hread (kind : TokenKind) : ofName? kind.name = some kind := by cases kind <;> rfl
  have hsome := congrArg ofName? h
  rw [hread, hread] at hsome
  exact Option.some.inj hsome

/-- The name of a kind ends at the first comma. -/
theorem TokenKind.name_append_inj {kind kind' : TokenKind} {text text' : List Char}
    (h : kind.name.toList ++ ',' :: text = kind'.name.toList ++ ',' :: text') :
    kind = kind' ∧ text = text' := by
  have hcomma (kind : TokenKind) : ∀ c ∈ kind.name.toList, (c != ',') = true :=
    List.all_eq_true.1 (by cases kind <;> decide)
  have hnames := congrArg (List.takeWhile (· != ',')) h
  rw [Cursor.takeWhile_append_eq (hcomma kind) (by simp),
    Cursor.takeWhile_append_eq (hcomma kind') (by simp)] at hnames
  obtain rfl := name_injective (String.toList_inj.1 hnames)
  exact ⟨rfl, (List.cons.inj (List.append_cancel_left h)).2⟩

theorem Scalar.shown_text_append_inj {s s' : String} {text text' : List Char}
    (h : (Scalar.text s).shown.toList ++ text = (Scalar.text s').shown.toList ++ text') :
    s = s' ∧ text = text' := by
  rw [shown, shown, quote, quote, String.toList_ofList, String.toList_ofList] at h
  obtain ⟨hs, htext⟩ := quoteChars_append_inj h
  exact ⟨String.toList_inj.1 hs, htext⟩

/-- Payloads that belong to one kind of tokens are told apart. -/
theorem TokenKind.Admits.shown_append_inj {kind : TokenKind} {v v' : Scalar}
    {text text' : List Char} (hv : kind.Admits v) (hv' : kind.Admits v')
    (hstops : Json.Stops text) (hstops' : Json.Stops text')
    (h : v.shown.toList ++ text = v'.shown.toList ++ text') : v = v' ∧ text = text' := by
  cases kind with
  | integer =>
    obtain ⟨n, _, rfl⟩ := hv
    obtain ⟨n', _, rfl⟩ := hv'
    obtain ⟨hn, htext⟩ := Json.int_append_inj hstops hstops' h
    exact ⟨congrArg Scalar.int hn, htext⟩
  | boolean =>
    obtain ⟨b, rfl⟩ := hv
    obtain ⟨b', rfl⟩ := hv'
    cases b <;> cases b'
    · exact ⟨rfl, List.append_cancel_left h⟩
    · cases h
    · cases h
    · exact ⟨rfl, List.append_cancel_left h⟩
  | string =>
    obtain ⟨s, rfl⟩ := hv
    obtain ⟨s', rfl⟩ := hv'
    obtain ⟨rfl, htext⟩ := Scalar.shown_text_append_inj h
    exact ⟨rfl, htext⟩
  | identifier =>
    cases v with
    | text s =>
      cases v' with
      | text s' =>
        obtain ⟨rfl, htext⟩ := Scalar.shown_text_append_inj h
        exact ⟨rfl, htext⟩
      | _ => cases hv'
    | _ => cases hv
  | endOfInput => cases hv
  | _ =>
    -- The payload of a keyword or symbol is the spelling of its kind.
    cases hv
    cases hv'
    exact ⟨rfl, List.append_cancel_left h⟩

/-- The two tokens agree in what a listing shows of them. -/
structure Token.ListedAlike (t t' : Token) : Prop where
  kind : t.kind = t'.kind
  value : t.value = t'.value
  loc : t.loc = t'.loc

theorem Token.Lexed.shown_inj {t t' : Token} (ht : t.Lexed) (ht' : t'.Lexed)
    (h : t.shown = t'.shown) : t.ListedAlike t' := by
  have hchars := congrArg String.toList h
  rw [toList_shown, toList_shown] at hchars
  obtain ⟨hkind, hchars⟩ := TokenKind.name_append_inj (List.append_cancel_left hchars)
  have hstops (c : Char) (text : List Char) (hc : c.isDigit = false) : Json.Stops (c :: text) := by
    rintro _ ⟨⟩
    exact hc
  obtain ⟨hvalue, hchars⟩ := TokenKind.Admits.shown_append_inj ht (hkind ▸ ht')
    (hstops ',' _ rfl) (hstops ',' _ rfl) (List.cons.inj hchars).2
  simp only [List.cons.injEq, true_and] at hchars
  obtain ⟨hline, hchars⟩ := Json.int_append_inj (hstops ':' _ rfl) (hstops ':' _ rfl) hchars
  obtain ⟨hcolumn, _⟩ := Json.int_append_inj (hstops ')' _ rfl) (hstops ')' _ rfl)
    (List.cons.inj hchars).2
  refine ⟨hkind, hvalue, ?_⟩
  show (⟨t.loc.line, t.loc.column⟩ : Location) = ⟨t'.loc.line, t'.loc.column⟩
  rw [hline, hcolumn]

/-! ## Listings -/

theorem Token.Lexed.shown_eq_iff {t t' : Token} (ht : t.Lexed) (ht' : t'.Lexed) :
    t.shown = t'.shown ↔ t.ListedAlike t' := by
  refine ⟨ht.shown_inj ht', fun h => ?_⟩
  rw [shown, shown, h.kind, h.value, h.loc]

theorem map_shown_eq_iff {ts ts' : List Token} (hts : ∀ t ∈ ts, t.Lexed)
    (hts' : ∀ t ∈ ts', t.Lexed) :
    ts.map Token.shown = ts'.map Token.shown ↔ List.Forall₂ Token.ListedAlike ts ts' := by
  induction ts generalizing ts' with
  | nil => rw [List.forall₂_nil_left_iff, List.map_nil, eq_comm, List.map_eq_nil_iff]
  | cons t ts ih =>
    cases ts' with
    | nil => simp
    | cons t' ts' =>
      rw [List.forall_mem_cons] at hts hts'
      rw [List.map_cons, List.map_cons, List.cons.injEq, List.forall₂_cons, ih hts.2 hts'.2,
        hts.1.shown_eq_iff hts'.1]

namespace Command

/-- The text of a list of tokens, one a line. -/
def listing (ts : List Token) : String :=
  "\n".intercalate (ts.map Token.shown)

theorem linesOf_listing (ts : List Token) :
    linesOf (listing ts).toList = ts.map fun t => t.shown.toList := by
  rw [listing, String.toList_intercalate, List.map_map]
  refine linesOf_intercalate ?_ ?_
  · intro l hl
    obtain ⟨t, _, rfl⟩ := List.mem_map.1 hl
    exact t.lineFeed_not_mem_shown
  · intro l hl
    obtain ⟨t, _, rfl⟩ := List.mem_map.1 hl
    exact t.shown_ne_nil

/-- Listings tell the tokens apart as far as they show them. -/
theorem listing_eq_iff {ts ts' : List Token} (hts : ∀ t ∈ ts, t.Lexed)
    (hts' : ∀ t ∈ ts', t.Lexed) :
    listing ts = listing ts' ↔ List.Forall₂ Token.ListedAlike ts ts' := by
  rw [← map_shown_eq_iff hts hts']
  constructor
  · intro h
    have hlines : linesOf (listing ts).toList = linesOf (listing ts').toList := by rw [h]
    rw [linesOf_listing, linesOf_listing] at hlines
    refine List.map_injective_iff.2 (fun _ _ => String.toList_inj.1) ?_
    rw [List.map_map, List.map_map]
    exact hlines
  · intro h
    rw [listing, h, listing]

/-- The `tokens` command gives one line for each token of a text but the end of the input, and no
token is shown with a line feed in it.  It gives the same for two texts exactly if their tokens
agree, one by one, in kind, payload and place. -/
theorem run_tokens_lists {config config' silent silent' : Setting}
    (hsilent : setting config "cli" "silent" = .ok silent)
    (hsilent' : setting config' "cli" "silent" = .ok silent') {source source' : List Char}
    {us us' : List Token} (h : tokenize source = .ok us) (h' : tokenize source' = .ok us')
    (label label' : String) :
    ∃ text text', (run "tokens" source label config).outcome = .ok text ∧
      (run "tokens" source' label' config').outcome = .ok text' ∧
      linesOf text.toList = (us.filter (!·.isEnd)).map (fun t => t.shown.toList) ∧
      (∀ t : Token, '\n' ∉ t.shown.toList) ∧
      (text = text' ↔
        List.Forall₂ Token.ListedAlike (us.filter (!·.isEnd)) (us'.filter (!·.isEnd))) := by
  have houtcome {source : List Char} {us : List Token} (h : tokenize source = .ok us) :
      tokenListing source = .ok (listing (us.filter (!·.isEnd))) := by
    rw [tokenListing, h]
    rfl
  refine ⟨_, _, (outcome_run_tokens hsilent).trans (houtcome h),
    (outcome_run_tokens hsilent').trans (houtcome h'), linesOf_listing _,
    Token.lineFeed_not_mem_shown, ?_⟩
  obtain ⟨ts, hts, rfl⟩ := tokenize_eq_ok.1 h
  obtain ⟨ts', hts', rfl⟩ := tokenize_eq_ok.1 h'
  rw [hts.filter_isEnd, hts'.filter_isEnd]
  exact listing_eq_iff hts.lexed hts'.lexed

/-- A string with a line feed in it, once with a blank behind it. -/
theorem run_tokens_lists_lineFeed :
    let config := withSilent Settings.defaults [] (.scalar (.bool true))
    let t : Token := ⟨.string, .text "\n'", ⟨1, 1⟩, 0, 5⟩
    setting config "cli" "silent" = .ok (.scalar (.bool true)) ∧
    tokenize ['"', '\\', 'n', '\'', '"'] = .ok [t, ⟨.endOfInput, .text "", ⟨1, 6⟩, 5, 5⟩] ∧
    tokenize ['"', '\\', 'n', '\'', '"', ' '] = .ok [t, ⟨.endOfInput, .text "", ⟨1, 7⟩, 6, 6⟩] ∧
    ∃ text, (run "tokens" ['"', '\\', 'n', '\'', '"'] "a" config).outcome = .ok text ∧
      (run "tokens" ['"', '\\', 'n', '\'', '"', ' '] "b" config).outcome = .ok text ∧
      linesOf text.toList = [t.shown.toList] := by
  intro config t
  have hsilent : setting config "cli" "silent" = .ok (.scalar (.bool true)) :=
    setting_withSilent _ _ _
  have htokens : tokenize ['"', '\\', 'n', '\'', '"'] =
      .ok [t, ⟨.endOfInput, .text "", ⟨1, 6⟩, 5, 5⟩] := by with_unfolding_all rfl
  have htokens' : tokenize ['"', '\\', 'n', '\'', '"', ' '] =
      .ok [t, ⟨.endOfInput, .text "", ⟨1, 7⟩, 6, 6⟩] := by with_unfolding_all rfl
  obtain ⟨text, text', htext, htext', hlines, _, hsame⟩ :=
    run_tokens_lists hsilent hsilent htokens htokens' "a" "b"
  obtain rfl : text = text' := hsame.2 (.cons ⟨rfl, rfl, rfl⟩ .nil)
  exact ⟨hsilent, htokens, htokens', text, htext, htext', hlines⟩

end Command

end NordLang
