import Mathlib
import Transclude.Proofs.Slicing

/-! # Texts are cut into their tokens

A text that has tokens consists of blanks and of one slice for each token, from its
position on, and a slice alone has that token only. No slice reaches beyond a blank
unless it is a closed string, so that behind a blank the tokens of another text
follow. Where a text has no tokens, the error stands behind what does have tokens, at
a character that begins no slice. -/

namespace Transclude.Expr

/-- A text that is a single token. -/
def IsSlice (slice : List Char) (lexeme : Lexeme) : Prop :=
  tokenize slice = .ok ⟨[⟨lexeme, 0⟩], slice.length⟩

/-- A text that begins at a position is cut into blanks and one slice for each token, which begins
at the position of the token and does not end with a blank. -/
inductive Cut : Nat → List Char → List Token → Prop
  | nil {position : Nat} {blanks : List Char} (hblanks : Text.AllBlank blanks) :
    Cut position blanks []
  | cons {position : Nat} {blanks slice rest : List Char} {lexeme : Lexeme}
    {following : List Token} (hblanks : Text.AllBlank blanks) (hslice : IsSlice slice lexeme)
    (hend : ∀ c ∈ slice.getLast?, Text.isBlank c = false)
    (hrest : Cut (position + blanks.length + slice.length) rest following) :
    Cut position (blanks ++ slice ++ rest) (⟨lexeme, position + blanks.length⟩ :: following)

/-- The token when its text stands behind some characters. -/
def Token.shift (count : Nat) (token : Token) : Token :=
  { token with position := count + token.position }

/-- The error when its text stands behind some characters. -/
def LexicalError.shift (count : Nat) (error : LexicalError) : LexicalError :=
  { error with position := count + error.position }

/-! ## Slices -/

variable {text : List Char} {lexeme : Lexeme} {length : Nat}

/-- A closed string ends with its quote. -/
theorem getLast?_of_stringContent? {quote : Char} {content : List Char}
    (h : stringContent? quote text = some (content, length)) :
    (text.take length).getLast? = some quote := by
  fun_induction stringContent? quote text generalizing content length with
  | case1 => cases h
  | case2 c rest hquote =>
      cases h
      simpa using hquote
  | case3 => cases h
  | case4 c hquote hescape e more ih =>
      obtain ⟨⟨inner, count⟩, hinner, heq⟩ := Option.map_eq_some_iff.mp h
      cases heq
      rw [List.take_succ_cons, List.take_succ_cons, List.getLast?_cons_cons, List.getLast?_cons,
        ih hinner, Option.getD_some]
  | case5 c more hquote hescape ih =>
      obtain ⟨⟨inner, count⟩, hinner, heq⟩ := Option.map_eq_some_iff.mp h
      cases heq
      rw [List.take_succ_cons, List.getLast?_cons, ih hinner, Option.getD_some]

/-- What stands at the beginning of a text does not end with a blank. -/
theorem not_isBlank_of_lexeme? {front : List Char} {c : Char}
    (hhead : ∀ d ∈ (front ++ [c]).head?, Text.isBlank d = false)
    (h : lexeme? (front ++ [c]) = some (lexeme, front.length + 1)) : Text.isBlank c = false := by
  by_contra hblank
  rw [Bool.not_eq_false] at hblank
  obtain ⟨-, hsign, hpart, -⟩ := apart_of_isBlank hblank
  have hlast : (front ++ [c]).getLast? = some c := List.getLast?_concat
  obtain ⟨-, -, hlength⟩ | ⟨d, rest, hfront, hkind⟩ := lexeme?_cases h
  · have hle := numberLength_le front
    rw [numberLength_append hblank] at hlength
    omega
  · have hsame : front.length = rest.length := by simpa using congrArg List.length hfront
    rw [hfront] at hhead hlast
    obtain ⟨content, count, hcontent, -, hlength⟩ | ⟨op, hop, -, hlength⟩ | ⟨_, -, -, hlength⟩ |
      ⟨hstart, -, hlength⟩ := hkind
    · -- the last character is the quote that the string begins with
      have hquote := getLast?_of_stringContent? hcontent
      rw [List.take_of_length_le (by omega)] at hquote
      rw [List.getLast?_cons, hquote, Option.getD_some] at hlast
      obtain rfl := Option.some.inj hlast
      rw [hhead d rfl] at hblank
      cases hblank
    · have hspelling := hop.eq_of_length (by simp [hlength, String.length_toList])
      have hmem : c ∈ op.spelling.toList := by simp [hspelling]
      rw [op.isOperatorSign_of_mem c hmem] at hsign
      cases hsign
    · obtain rfl : rest = [] := List.length_eq_zero_iff.mp (by omega)
      have hsame : d = c := Option.some.inj hlast
      rw [← hsame, hhead d rfl] at hblank
      cases hblank
    · have hall : rest.takeWhile Text.isIdentifierPart = rest :=
        (List.takeWhile_prefix _).eq_of_length (by omega)
      obtain rfl | hmem := List.mem_cons.mp (List.mem_of_getLast? hlast)
      · rw [Text.isIdentifierPart_of_start hstart] at hpart
        cases hpart
      · rw [← hall] at hmem
        rw [List.mem_takeWhile_imp hmem] at hpart
        cases hpart

/-- Behind a lexeme the tokens of the rest follow. -/
theorem tokensFrom_lexeme {c : Char} {rest : List Char} (hblank : Text.isBlank c = false)
    (h : lexeme? (c :: rest) = some (lexeme, length + 1)) (position : Nat) :
    tokensFrom position (c :: rest) =
      (tokensFrom (position + length + 1) (rest.drop length)).map (⟨lexeme, position⟩ :: ·) := by
  rw [tokensFrom, if_neg (by simp [hblank]), h]
  dsimp only
  rw [Nat.add_sub_cancel]
  cases tokensFrom (position + length + 1) (rest.drop length) <;> rfl

/-- What stands at the beginning of a text is a token alone. -/
theorem isSlice_take {c : Char} {rest : List Char} (hblank : Text.isBlank c = false)
    (h : lexeme? (c :: rest) = some (lexeme, length + 1)) :
    IsSlice (c :: rest.take length) lexeme := by
  have htake := lexeme?_take h (Nat.le_refl _)
  rw [List.take_succ_cons] at htake
  have hnothing : (rest.take length).drop length = [] :=
    List.drop_eq_nil_of_le (List.length_take_le _ _)
  rw [IsSlice, tokenize, tokensFrom_lexeme hblank htake, hnothing, tokensFrom]
  rfl

theorem not_isBlank_getLast? {c : Char} {rest : List Char} (hblank : Text.isBlank c = false)
    (h : lexeme? (c :: rest) = some (lexeme, length + 1)) :
    ∀ d ∈ (c :: rest.take length).getLast?, Text.isBlank d = false := by
  intro d hd
  have hle := length_le_of_lexeme? h
  rw [List.length_cons] at hle
  have htake := lexeme?_take h (Nat.le_refl _)
  obtain ⟨front, hfront⟩ := List.getLast?_eq_some_iff.mp hd
  have hlength : length + 1 = front.length + 1 := by
    simpa [Nat.min_eq_left (Nat.le_of_succ_le_succ hle)] using congrArg List.length hfront
  rw [List.take_succ_cons, hfront, hlength] at htake
  refine not_isBlank_of_lexeme? (fun e he => ?_) htake
  rw [← hfront] at he
  cases he
  exact hblank

/-! ## The cut -/

variable {position : Nat} {tokens : List Token}

theorem Cut.blank {c : Char} {rest : List Char} (hblank : Text.isBlank c = true)
    (h : Cut (position + 1) rest tokens) : Cut position (c :: rest) tokens := by
  cases h with
  | nil hblanks => exact .nil (List.forall_mem_cons.mpr ⟨hblank, hblanks⟩)
  | @cons _ blanks slice rest lexeme following hblanks hslice hend hrest =>
      have hplace : position + 1 + blanks.length = position + (c :: blanks).length := by
        rw [List.length_cons]
        omega
      rw [hplace] at hrest ⊢
      exact .cons (List.forall_mem_cons.mpr ⟨hblank, hblanks⟩) hslice hend hrest

/-- The tokens of a text cut it. -/
theorem cut_of_tokensFrom (h : tokensFrom position text = .ok tokens) :
    Cut position text tokens := by
  fun_induction tokensFrom position text generalizing tokens with
  | case1 =>
      cases h
      exact .nil (List.forall_mem_nil _)
  | case2 position c rest hblank ih => exact (ih h).blank hblank
  | case3 position c rest hblank lexeme length hlexeme ih =>
      obtain ⟨following, hfollowing, h⟩ := bind_eq_ok.mp h
      cases h
      obtain ⟨k, rfl⟩ := Nat.exists_eq_add_of_le' (length_pos_of_lexeme? hlexeme)
      have hle := length_le_of_lexeme? hlexeme
      rw [List.length_cons] at hle
      rw [Bool.not_eq_true] at hblank
      have hrest := ih hfollowing
      have hstop : position + (k + 1 - 1) + 1 =
          position + ([] : List Char).length + (c :: rest.take k).length := by
        simp only [List.length_nil, List.length_cons, List.length_take]
        omega
      rw [hstop, Nat.add_sub_cancel] at hrest
      have hcut := Cut.cons (List.forall_mem_nil _) (isSlice_take hblank hlexeme)
        (not_isBlank_getLast? hblank hlexeme) hrest
      rwa [List.nil_append, List.cons_append, List.take_append_drop] at hcut
  | case4 => cases h

/-- Each token stands behind the one before it, and the end behind all of them. -/
theorem pairwise_position (h : tokensFrom position text = .ok tokens) :
    (tokens.map Token.position ++ [position + text.length]).Pairwise (· < ·) := by
  fun_induction tokensFrom position text generalizing tokens with
  | case1 =>
      cases h
      exact List.pairwise_singleton _ _
  | case2 position c rest hblank ih =>
      have hrest := ih h
      rwa [List.length_cons,
        show position + (rest.length + 1) = position + 1 + rest.length by omega]
  | case3 position c rest hblank lexeme length hlexeme ih =>
      obtain ⟨following, hfollowing, h⟩ := bind_eq_ok.mp h
      cases h
      have hpos := length_pos_of_lexeme? hlexeme
      have hle := length_le_of_lexeme? hlexeme
      rw [List.length_cons] at hle
      have hrest := ih hfollowing
      rw [List.length_drop, show position + (length - 1) + 1 + (rest.length - (length - 1)) =
        position + (rest.length + 1) by omega] at hrest
      rw [List.map_cons, List.cons_append, List.length_cons]
      refine List.pairwise_cons.mpr ⟨fun place hplace => ?_, hrest⟩
      obtain hplace | hplace := List.mem_append.mp hplace
      · obtain ⟨token, htoken, rfl⟩ := List.mem_map.mp hplace
        have hbehind := le_position_of_tokensFrom hfollowing token htoken
        dsimp only
        omega
      · rw [List.mem_singleton.mp hplace]
        dsimp only
        omega
  | case4 => cases h

/-! ## Texts behind a blank -/

theorem tokensFrom_blanks {blanks : List Char} (h : Text.AllBlank blanks) :
    tokensFrom position (blanks ++ text) = tokensFrom (position + blanks.length) text := by
  induction blanks generalizing position with
  | nil => rfl
  | cons c blanks ih =>
      obtain ⟨hblank, hblanks⟩ := List.forall_mem_cons.mp h
      rw [List.cons_append, tokensFrom, if_pos hblank, ih hblanks, List.length_cons]
      congr 1
      omega

/-- Where a text begins only counts for the positions. -/
theorem tokensFrom_shift (count : Nat) (position : Nat) (text : List Char) :
    tokensFrom (count + position) text =
      ((tokensFrom position text).map (List.map (Token.shift count))).mapError
        (LexicalError.shift count) := by
  fun_induction tokensFrom position text with
  | case1 => rw [tokensFrom]; rfl
  | case2 position c rest hblank ih => rw [tokensFrom, if_pos hblank, Nat.add_assoc, ih]
  | case3 position c rest hblank lexeme length hlexeme ih =>
      rw [tokensFrom, if_neg hblank, hlexeme]
      dsimp only
      rw [Nat.add_assoc, Nat.add_assoc, ← Nat.add_assoc position, ih]
      cases tokensFrom (position + (length - 1) + 1) (rest.drop (length - 1)) <;> rfl
  | case4 position c rest hblank hlexeme =>
      rw [tokensFrom, if_neg hblank, hlexeme]
      rfl

/-- Behind a blank the tokens or the error of another text follow. -/
theorem tokenize_append {blanks : List Char} (h : tokensFrom 0 text = .ok tokens)
    (hblanks : Text.AllBlank blanks) (hne : blanks ≠ []) (more : List Char) :
    tokenize (text ++ blanks ++ more) =
      ((tokenize more).map fun following =>
        (⟨tokens ++ following.items.map (Token.shift (text ++ blanks).length),
          (text ++ blanks).length + following.stop⟩ : Tokens)).mapError
        (LexicalError.shift (text ++ blanks).length) := by
  obtain ⟨c, blanks, rfl⟩ := List.exists_cons_of_ne_nil hne
  obtain ⟨hblank, hblanks⟩ := List.forall_mem_cons.mp hblanks
  have hplace : 0 + text.length + 1 + blanks.length = (text ++ c :: blanks).length + 0 := by
    rw [List.length_append, List.length_cons]
    omega
  rw [tokenize, List.append_assoc, List.cons_append, tokensFrom_append hblank h,
    tokensFrom_blanks hblanks, hplace, tokensFrom_shift, tokenize]
  cases tokensFrom 0 more with
  | error error => rfl
  | ok following =>
      have hstop : (text ++ c :: (blanks ++ more)).length =
          (text ++ c :: blanks).length + more.length := by
        simp only [List.length_append, List.length_cons]
        omega
      rw [hstop]
      rfl

/-! ## Errors -/

/-- Where nothing stands that is a token, nothing does when the text is cut. -/
theorem lexeme?_take_eq_none (h : lexeme? text = none) (n : Nat) :
    lexeme? (text.take n) = none := by
  cases n with
  | zero => rfl
  | succ n =>
      rw [lexeme?.eq_def] at h ⊢
      dsimp only at h ⊢
      split at h
      next => cases h
      next hnumber =>
        rw [ne_eq, not_not] at hnumber
        rw [numberLength_take (by omega), if_neg (by simp [hnumber])]
        cases text with
        | nil => rfl
        | cons c rest =>
            rw [List.take_succ_cons]
            dsimp only at h ⊢
            split at h
            next hquote =>
              rw [if_pos hquote]
              rw [Option.map_eq_none_iff] at h ⊢
              -- a string that is closed in the cut text is closed in the whole one
              by_contra hsome
              obtain ⟨⟨content, count⟩, hcontent⟩ := Option.ne_none_iff_exists'.mp hsome
              have hwhole := stringContent?_append hcontent (rest.drop n)
              rw [List.take_append_drop, h] at hwhole
              cases hwhole
            next hquote =>
              rw [if_neg hquote]
              split at h
              next => cases h
              next hop =>
                have htake := find?_operator_take_eq_none hop (n + 1)
                rw [List.take_succ_cons] at htake
                rw [htake]
                dsimp only
                split at h
                next => cases h
                next hsymbol =>
                  split at h
                  next => cases h
                  next hstart => rw [if_neg hstart]

/-- A character that begins no lexeme begins no slice. -/
theorem not_isSlice_of_lexeme? {c : Char} {rest slice : List Char}
    (hblank : Text.isBlank c = false) (h : lexeme? (c :: rest) = none)
    (hslice : slice <+: c :: rest) (lexeme : Lexeme) : ¬ IsSlice slice lexeme := by
  have htake := lexeme?_take_eq_none h slice.length
  rw [List.prefix_iff_eq_take.mp hslice]
  intro hisSlice
  obtain ⟨items, hitems, heq⟩ := bind_eq_ok.mp hisSlice
  cases heq
  cases hlength : slice.length with
  | zero =>
      rw [hlength, List.take_zero, tokensFrom] at hitems
      cases hitems
  | succ n =>
      rw [hlength, List.take_succ_cons] at htake hitems
      rw [tokensFrom, if_neg (by simp [hblank]), htake] at hitems
      cases hitems

/-- The text in front of an error has tokens, and no lexeme begins at the error. -/
theorem exists_of_tokensFrom_error {error : LexicalError}
    (h : tokensFrom position text = .error error) :
    ∃ n c rest, error.position = position + n ∧
      (∃ tokens, tokensFrom position (text.take n) = .ok tokens) ∧ text.drop n = c :: rest ∧
      Text.isBlank c = false ∧ lexeme? (c :: rest) = none := by
  fun_induction tokensFrom position text with
  | case1 => cases h
  | case2 position c rest hblank ih =>
      obtain ⟨n, d, more, hposition, ⟨tokens, htokens⟩, hdrop, hnone⟩ := ih h
      refine ⟨n + 1, d, more, by omega, ⟨tokens, ?_⟩, hdrop, hnone⟩
      rw [List.take_succ_cons, tokensFrom, if_pos hblank, htokens]
  | case3 position c rest hblank lexeme length hlexeme ih =>
      have hfollowing := bind_pure_eq_error.mp h
      obtain ⟨n, d, more, hposition, ⟨tokens, htokens⟩, hdrop, hnone⟩ := ih hfollowing
      obtain ⟨k, rfl⟩ := Nat.exists_eq_add_of_le' (length_pos_of_lexeme? hlexeme)
      rw [Nat.add_sub_cancel] at hposition htokens hdrop
      have hcut := lexeme?_take hlexeme (show k + 1 ≤ k + n + 1 by omega)
      refine ⟨k + n + 1, d, more, by omega, ⟨⟨lexeme, position⟩ :: tokens, ?_⟩, ?_, hnone⟩
      · rw [List.take_succ_cons] at hcut ⊢
        rw [tokensFrom_lexeme (Bool.eq_false_of_not_eq_true hblank) hcut, List.drop_take,
          Nat.add_sub_cancel_left, htokens]
        rfl
      · rw [List.drop_succ_cons, ← List.drop_drop, hdrop]
  | case4 position c rest hblank hlexeme =>
      cases h
      refine ⟨0, c, rest, rfl, ⟨[], ?_⟩, rfl, by simpa using hblank, hlexeme⟩
      rw [List.take_zero, tokensFrom]

/-- A text that has tokens is cut into them and ends behind the last one, and behind a blank the
tokens or the error of any other text follow. Where a text has no tokens, the part in front of the
error has some, and at the error a character stands that begins none. -/
theorem tokenize_partitions (text : List Char) :
    (∀ tokens, tokenize text = .ok tokens →
      tokens.stop = text.length ∧
      (tokens.items.map Token.position ++ [tokens.stop]).Pairwise (· < ·) ∧
      Cut 0 text tokens.items ∧
      ∀ blanks more, blanks ≠ [] → Text.AllBlank blanks →
        (∀ following, tokenize more = .ok following →
          tokenize (text ++ blanks ++ more) =
            .ok ⟨tokens.items ++ following.items.map (Token.shift (text ++ blanks).length),
              (text ++ blanks).length + following.stop⟩) ∧
        ∀ error, tokenize more = .error error →
          tokenize (text ++ blanks ++ more) = .error (error.shift (text ++ blanks).length)) ∧
    ∀ error, tokenize text = .error error →
      (∃ tokens, tokenize (text.take error.position) = .ok tokens) ∧
      ∃ c rest, text.drop error.position = c :: rest ∧ Text.isBlank c = false ∧
        ∀ slice lexeme, slice <+: c :: rest → ¬ IsSlice slice lexeme := by
  constructor
  · intro tokens h
    obtain ⟨items, hitems, heq⟩ := bind_eq_ok.mp h
    cases heq
    have hordered := pairwise_position hitems
    rw [Nat.zero_add] at hordered
    refine ⟨rfl, hordered, cut_of_tokensFrom hitems, fun blanks more hne hblanks => ⟨?_, ?_⟩⟩
    · intro following hmore
      rw [tokenize_append hitems hblanks hne, hmore]
      rfl
    · intro error hmore
      rw [tokenize_append hitems hblanks hne, hmore]
      rfl
  · intro error h
    obtain ⟨n, c, rest, hposition, ⟨items, hitems⟩, hdrop, hblank, hnone⟩ :=
      exists_of_tokensFrom_error (bind_pure_eq_error.mp h)
    rw [hposition, Nat.zero_add]
    refine ⟨⟨⟨items, (text.take n).length⟩, ?_⟩, c, rest, hdrop, hblank, fun slice lexeme hslice =>
      not_isSlice_of_lexeme? hblank hnone hslice lexeme⟩
    rw [tokenize, hitems]
    rfl

/-- A string is cut as one slice with the blank in it. Behind a blank a number that begins with a
point follows, and an open string is an error at its quote. -/
theorem tokenize_partitions_string :
    tokenize "x<='a b'".toList = .ok ⟨[⟨.identifier "x", 0⟩, ⟨.operator .atMost, 1⟩,
      ⟨.string "a b", 3⟩], 8⟩ ∧
    Cut 0 "x<='a b'".toList [⟨.identifier "x", 0⟩, ⟨.operator .atMost, 1⟩, ⟨.string "a b", 3⟩] ∧
    Text.AllBlank ['\n'] ∧
    tokenize ".5e".toList = .ok ⟨[⟨.number ['.', '5'], 0⟩, ⟨.identifier "e", 2⟩], 3⟩ ∧
    tokenize "x<='a b'\n.5e".toList = .ok ⟨[⟨.identifier "x", 0⟩, ⟨.operator .atMost, 1⟩,
      ⟨.string "a b", 3⟩, ⟨.number ['.', '5'], 9⟩, ⟨.identifier "e", 11⟩], 12⟩ ∧
    tokenize "x 'b".toList = .error ⟨.unterminatedString, 2⟩ ∧
    (∃ tokens, tokenize "x ".toList = .ok tokens) ∧
    ∀ slice lexeme, slice <+: "'b".toList → ¬ IsSlice slice lexeme := by
  have htokens : tokenize "x<='a b'".toList = .ok ⟨[⟨.identifier "x", 0⟩, ⟨.operator .atMost, 1⟩,
      ⟨.string "a b", 3⟩], 8⟩ := by cbv
  have hblank : Text.AllBlank ['\n'] := by decide
  have hmore : tokenize ".5e".toList =
      .ok ⟨[⟨.number ['.', '5'], 0⟩, ⟨.identifier "e", 2⟩], 3⟩ := by cbv
  have herror : tokenize "x 'b".toList = .error ⟨.unterminatedString, 2⟩ := by cbv
  obtain ⟨-, -, hcut, hbehind⟩ := (tokenize_partitions "x<='a b'".toList).1 _ htokens
  obtain ⟨hfront, c, rest, hdrop, -, hnone⟩ := (tokenize_partitions "x 'b".toList).2 _ herror
  have hrest : c :: rest = "'b".toList := hdrop.symm
  exact ⟨htokens, hcut, hblank, hmore,
    (hbehind ['\n'] ".5e".toList (by decide) hblank).1 _ hmore, herror, hfront, hrest ▸ hnone⟩

end Transclude.Expr
