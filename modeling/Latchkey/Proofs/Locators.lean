import Mathlib.Data.List.TakeWhile
import Latchkey.Redis.ClusterStore

/-!
# Reading the locator of a node

The locator of a node is made of a host and a port. If the host is a word, without any character
that delimits the parts of a locator, what is read is the host and the port again. If it is a
locator itself, its scheme is taken for the host and all that is behind it for a path.

The main statements are `poolEndpoint_word` and `poolEndpoint_locator`.
-/

namespace Latchkey

/-! ## Numbers -/

theorem isDigit_bounds {c : Char} (h : c.isDigit = true) : 48 ≤ c.toNat ∧ c.toNat ≤ 57 := by
  simp only [Char.isDigit, Bool.and_eq_true, decide_eq_true_eq] at h
  exact ⟨UInt32.le_iff_toNat_le.1 h.1, UInt32.le_iff_toNat_le.1 h.2⟩

namespace Net

open Text (takeDigits digitsValue digit?)

theorem takeDigits_of_isDigit {cs : List Char} (h : ∀ c ∈ cs, c.isDigit = true) :
    takeDigits 10 cs = (cs.map fun c => c.toNat - '0'.toNat, []) := by
  induction cs with
  | nil => rfl
  | cons c rest ih =>
    obtain ⟨hc, hrest⟩ := List.forall_mem_cons.1 h
    have hlt : c.toNat - '0'.toNat < 10 := by
      have hbounds := isDigit_bounds hc
      show c.toNat - 48 < 10
      omega
    have hdigit : digit? 10 c = some (c.toNat - '0'.toNat) := by
      rw [digit?, if_pos hc, Option.filter_some, if_pos (decide_eq_true hlt)]
    rw [takeDigits, hdigit, ih hrest]
    rfl

theorem digitsValue_eq (cs : List Char) :
    digitsValue 10 (cs.map fun c => c.toNat - '0'.toNat) = Nat.ofDigitChars 10 cs 0 := by
  rw [digitsValue, List.foldl_map, Nat.ofDigitChars]
  simp only [Nat.mul_comm]

/-- The characters of a number that is written out. -/
theorem isDigit_of_mem_repr {n : Nat} {c : Char} (h : c ∈ (Nat.repr n).toList) :
    c.isDigit = true := by
  rw [Nat.toList_repr] at h
  exact Nat.isDigit_of_mem_toDigits (by decide) (by decide) h

theorem decimal?_repr {limit n : Nat} (h : n ≤ limit) :
    decimal? limit (Nat.repr n).toList = some (n, []) := by
  have htake := takeDigits_of_isDigit fun c hc => @isDigit_of_mem_repr n c hc
  have hvalue := digitsValue_eq (Nat.repr n).toList
  rw [Nat.toList_repr] at htake hvalue ⊢
  rw [Nat.ofDigitChars_ten_toDigits] at hvalue
  rw [decimal?, htake]
  cases hcs : Nat.toDigits 10 n with
  | nil => exact absurd hcs Nat.toDigits_ne_nil
  | cons c rest =>
    rw [hcs] at hvalue
    rw [List.map_cons] at hvalue ⊢
    show (if digitsValue 10 (_ :: _) ≤ limit then _ else _) = _
    rw [hvalue, if_pos h]

/-! ## Parts of a locator -/

namespace Url

/-- Characters that may stand for a host: there are some, and none delimits parts of a locator. -/
structure IsWord (cs : List Char) : Prop where
  nonempty : cs ≠ []
  plain : ∀ c ∈ cs, c ∉ hostDelimiters

theorem not_mem_of_isDigit {c : Char} (h : c.isDigit = true) : c ∉ hostDelimiters := by
  intro hmem
  have hbounds := isDigit_bounds h
  simp only [hostDelimiters, List.mem_cons, List.not_mem_nil, or_false] at hmem
  rcases hmem with rfl | rfl | rfl | rfl | rfl | rfl | rfl | rfl | rfl | rfl | rfl | rfl | rfl |
    rfl | rfl | rfl | rfl
  all_goals exact absurd hbounds (by decide)

theorem isWord_repr (n : Nat) : IsWord (Nat.repr n).toList where
  nonempty := by
    rw [Nat.toList_repr]
    exact Nat.toDigits_ne_nil
  plain _ hmem := not_mem_of_isDigit (isDigit_of_mem_repr hmem)

theorem IsWord.not_mem {cs : List Char} (h : IsWord cs) {c : Char} (hc : c ∈ hostDelimiters) :
    c ∉ cs := fun hmem => h.plain c hmem hc

/-- A word is read as a host. -/
theorem host?_word {cs : List Char} (h : IsWord cs) : host? cs = some (String.ofList cs) := by
  have hplain : cs.any hostDelimiters.contains = false := by
    simpa using h.plain
  have hopen : '[' ∉ cs := h.not_mem (by decide)
  unfold host?
  split
  · exact absurd List.mem_cons_self hopen
  · rw [hplain]
    rfl

/-- A number that is written out is read as a port. -/
theorem portPart?_repr {port : Nat} (h : port ≤ 65535) :
    portPart? (some (Nat.repr port).toList) = some (some port) := by
  have hdecimal := decimal?_repr h
  cases hdigits : (Nat.repr port).toList with
  | nil => exact absurd hdigits (isWord_repr port).nonempty
  | cons c rest =>
    rw [hdigits] at hdecimal
    rw [portPart?, hdecimal]
    nofun

/-- What is before the first colon, if there is no bracket before it. -/
theorem divideAtColon_word {cs : List Char} (h : IsWord cs) (rest : List Char) :
    divideAtColon false (cs ++ ':' :: rest) = (cs, some rest) := by
  have hcolon : ':' ∉ cs := h.not_mem (by decide)
  have hopen : '[' ∉ cs := h.not_mem (by decide)
  have hclose : ']' ∉ cs := h.not_mem (by decide)
  clear h
  induction cs with
  | nil => simp [divideAtColon]
  | cons c cs ih =>
    simp only [List.mem_cons, not_or] at hcolon hopen hclose
    rw [List.cons_append, divideAtColon, if_neg (by simpa using fun h => hcolon.1 h.symm),
      if_neg fun h => hopen.1 h.symm, if_neg fun h => hclose.1 h.symm, ih hcolon.2 hopen.2 hclose.2]

/-- A word and a port after a colon, without credentials. -/
theorem authority?_word (u : Url) {cs portText : List Char} {port : Option Nat} (h : IsWord cs)
    (hat : '@' ∉ portText) (hport : portPart? (some portText) = some port) :
    authority? u (cs ++ ':' :: portText) =
      some { u with
        user := "", password := "", host := some (String.ofList cs), port := port } := by
  have hnone : (cs ++ ':' :: portText).contains '@' = false := by
    simpa [hat] using h.not_mem (c := '@') (by decide)
  have hname : (String.ofList cs).isEmpty = false := by
    simpa using h.nonempty
  simp only [authority?, divideAtSign, hnone, divideAtColon_word h, host?_word h, hport, hname,
    Option.bind_eq_bind, Option.bind_some, Bool.false_eq_true, if_false, Bool.false_and]
  rfl

/-! ## Locators of Redis -/

/-- A character of a word, or a colon or slash between words. -/
def MayStand (c : Char) : Prop := c = ':' ∨ c = '/' ∨ c ∉ hostDelimiters

theorem mayStand_colon : MayStand ':' := .inl rfl

theorem mayStand_slash : MayStand '/' := .inr (.inl rfl)

theorem IsWord.mayStand {cs : List Char} (h : IsWord cs) : ∀ c ∈ cs, MayStand c :=
  fun c hmem => .inr (.inr (h.plain c hmem))

/-- Characters that are behind the scheme of a locator: words with colons and slashes between them,
the last one of which is a number. -/
structure IsPlace (cs : List Char) : Prop where
  plain : ∀ c ∈ cs, MayStand c
  last : ∃ front z, cs = front ++ [z] ∧ z.isDigit = true

theorem IsPlace.not_mem {cs : List Char} (h : IsPlace cs) {c : Char} (hc : c ∈ hostDelimiters)
    (hcolon : c ≠ ':') (hslash : c ≠ '/') : c ∉ cs := by
  intro hmem
  rcases h.plain c hmem with heq | heq | hnot
  · exact hcolon heq
  · exact hslash heq
  · exact hnot hc

/-- Where neither end is a blank and no line ends within, there is nothing to be cleaned away. -/
theorem clean_eq {first last : Char} {middle : List Char} (hfirst : ¬ first ≤ ' ')
    (hlast : ¬ last ≤ ' ')
    (hbreak : ∀ c ∈ first :: (middle ++ [last]), c ≠ '\t' ∧ c ≠ '\n' ∧ c ≠ '\r') :
    clean (first :: (middle ++ [last])) = first :: (middle ++ [last]) := by
  have hfront : (first :: (middle ++ [last])).dropWhile (fun c => decide (c ≤ ' ')) =
      first :: (middle ++ [last]) :=
    List.dropWhile_cons_of_neg (by simpa using hfirst)
  have hback : (first :: (middle ++ [last])).reverse.dropWhile (fun c => decide (c ≤ ' ')) =
      (first :: (middle ++ [last])).reverse := by
    rw [List.reverse_cons, List.reverse_append, List.reverse_singleton, List.singleton_append,
      List.cons_append]
    exact List.dropWhile_cons_of_neg (by simpa using hlast)
  rw [clean, hfront, hback, List.reverse_reverse, List.filter_eq_self]
  intro c hmem
  obtain ⟨htab, hline, hreturn⟩ := hbreak c hmem
  simp [htab, hline, hreturn]

/-- A locator of Redis without a query and a fragment is read by what is behind its scheme. -/
theorem read?_redis {text : String} {cs : List Char}
    (htext : text.toList = ['r', 'e', 'd', 'i', 's', ':', '/', '/'] ++ cs) (h : IsPlace cs) :
    read? text =
      (authority? { scheme := "redis" } (cs.takeWhile (· != '/'))).map
        fun u => { u with path := pathParts (cs.dropWhile (· != '/')) } := by
  have hclean : clean text.toList = ['r', 'e', 'd', 'i', 's', ':', '/', '/'] ++ cs := by
    obtain ⟨front, z, rfl, hz⟩ := h.last
    have hlast : ¬ z ≤ ' ' := by
      intro hle
      exact absurd (Nat.le_trans (isDigit_bounds hz).1 hle) (by decide)
    rw [htext]
    refine @clean_eq 'r' z (['e', 'd', 'i', 's', ':', '/', '/'] ++ front) (by decide) hlast ?_
    have hscheme : ∀ c ∈ ['r', 'e', 'd', 'i', 's', ':', '/', '/'], MayStand c := by
      simp [MayStand, hostDelimiters]
    have hbreak : ∀ c ∈ ['\t', '\n', '\r'], ¬ MayStand c := by
      simp [MayStand, hostDelimiters]
    intro c hmem
    have hplain : MayStand c := (List.mem_append.1 hmem).elim (hscheme c) (h.plain c)
    refine ⟨?_, ?_, ?_⟩ <;> rintro rfl <;> exact hbreak _ (by decide) hplain
  have hscheme : scheme? (clean text.toList) = some ("redis", '/' :: '/' :: cs) := by
    rw [hclean]
    rfl
  have hends : ∀ d ∈ ['#', '?'], d ∈ hostDelimiters ∧ d ≠ ':' ∧ d ≠ '/' := by
    simp [hostDelimiters]
  have hpass : ∀ d ∈ ['#', '?'], ∀ c ∈ '/' :: '/' :: cs, (c != d) = true := by
    intro d hd c hmem
    have hslash := hends d hd
    have hnot := h.not_mem hslash.1 hslash.2.1 hslash.2.2
    rw [bne_iff_ne]
    rintro rfl
    simp [hnot, hslash.2.2] at hmem
  have hfragment := List.takeWhile_eq_self_iff.2 (hpass '#' (by decide))
  have hquery := hpass '?' (by decide)
  rw [read?, hscheme]
  simp only [Option.bind_eq_bind, Option.bind_some, hfragment,
    List.takeWhile_eq_self_iff.2 hquery, List.dropWhile_eq_nil_iff.2 hquery]
  rw [Option.map_eq_bind]
  rfl

/-! ## Paths -/

/-- A part of a path with a colon is no points. -/
theorem isPoints_of_colon {part : List Char} (count : Nat) (h : ':' ∈ part) :
    isPoints count part = false := by
  have hpoints : isPoints.points part = none := by
    fun_induction isPoints.points part with
    | case1 => simp at h
    | case2 rest ih => rw [ih (by simpa using h)]; rfl
    | case3 e rest he ih =>
      have hcolon : ':' ≠ e := by
        rintro rfl
        simp at he
      rw [ih (by simpa [hcolon] using h)]
      rfl
    | case4 => rfl
    | case5 => rfl
  rw [isPoints, hpoints]
  rfl

/-- A path of two slashes and one part with a colon. -/
theorem pathParts_place {tail : List Char} (hslash : '/' ∉ tail) (hcolon : ':' ∈ tail) :
    pathParts ('/' :: '/' :: tail) = ["", String.ofList tail] := by
  have hsplit : ('/' :: tail).splitOn '/' = [[], tail] := by
    have hfirst := List.splitOn_append_cons_self_of_not_mem (List.not_mem_nil (a := '/')) tail
    rw [List.splitOn_eq_singleton hslash] at hfirst
    exact hfirst
  have hpoints := fun count => isPoints_of_colon count hcolon
  simp only [pathParts, hsplit, resolve, hpoints]
  rfl

end Url

end Net

/-! ## Endpoints -/

namespace Redis

open Net.Url

/-- A text with a colon is no number. -/
theorem database?_of_colon {text : String} (h : ':' ∈ text.toList) :
    Endpoint.database? text = none := by
  have hnone : Decimal.signedInteger? text.toList = none := by
    unfold Decimal.signedInteger?
    split
    next negative digits heq =>
      -- the sign is not the colon
      have hmem : ':' ∈ digits := by
        split at heq <;> cases heq <;> simp_all
      have hall : digits.all Char.isDigit = false := List.all_eq_false.2 ⟨':', hmem, by decide⟩
      rw [hall, Bool.and_false]
      rfl
  rw [Endpoint.database?, hnone]
  rfl

theorem isPlace_of_repr {front : List Char} (port : Nat) (h : ∀ c ∈ front, MayStand c) :
    IsPlace (front ++ (Nat.repr port).toList) where
  plain c hmem := by
    rcases List.mem_append.1 hmem with hmem | hmem
    · exact h c hmem
    · exact (isWord_repr port).mayStand c hmem
  last := by
    obtain ⟨digits, z, hdigits⟩ :=
      (List.eq_nil_or_concat (Nat.repr port).toList).resolve_left (isWord_repr port).nonempty
    rw [List.concat_eq_append] at hdigits
    refine ⟨front ++ digits, z, by rw [hdigits, List.append_assoc], ?_⟩
    exact Net.isDigit_of_mem_repr (n := port) (by rw [hdigits]; simp)

/-- What a locator without a path and without credentials leads to. -/
theorem ofNetworkUrl_plain (host : String) (port : Nat) :
    Endpoint.ofNetworkUrl { scheme := "redis", host := some host, port := some port } =
      .ok ⟨.network host port, 0⟩ := by
  have hempty : (Net.Url.unescaped? "").isNone = false := by decide +kernel
  have hprotocol : Endpoint.protocolKnown (queryPairs "") = true := by decide +kernel
  simp only [Endpoint.ofNetworkUrl, hempty, hprotocol]
  rfl

theorem not_mem_join {c : Char} {xs ys : List Char} (hxs : c ∉ xs) (hc : c ≠ ':') (hys : c ∉ ys) :
    c ∉ xs ++ ':' :: ys := by
  simp [hxs, hc, hys]

theorem ne_of_not_mem {c : Char} {cs : List Char} (h : c ∉ cs) : ∀ d ∈ cs, (d != c) = true := by
  intro d hmem
  rw [bne_iff_ne]
  rintro rfl
  exact h hmem

/-- The locator of a node whose host is a word leads to the host and the port. -/
theorem poolEndpoint_word {host : String} {port : Nat} (h : IsWord host.toList)
    (hport : port ≤ 65535) :
    poolEndpoint (StoreSettings.nodeUrl host port) = .ok ⟨.network host port, 0⟩ := by
  have htext : (StoreSettings.nodeUrl host port).toList =
      ['r', 'e', 'd', 'i', 's', ':', '/', '/'] ++
        (host.toList ++ ':' :: (Nat.repr port).toList) := by
    simp [StoreSettings.nodeUrl]
  have hplace : IsPlace (host.toList ++ ':' :: (Nat.repr port).toList) := by
    rw [List.append_cons]
    refine isPlace_of_repr port ?_
    rw [List.forall_mem_append, List.forall_mem_singleton]
    exact ⟨h.mayStand, mayStand_colon⟩
  have hpass := ne_of_not_mem (not_mem_join (h.not_mem (c := '/') (by decide)) (by decide)
    ((isWord_repr port).not_mem (by decide)))
  have hat : '@' ∉ (Nat.repr port).toList := (isWord_repr port).not_mem (by decide)
  have hread : Net.Url.read? (StoreSettings.nodeUrl host port) =
      some { scheme := "redis", host := some host, port := some port } := by
    rw [read?_redis htext hplace, List.takeWhile_eq_self_iff.2 hpass,
      List.dropWhile_eq_nil_iff.2 hpass, authority?_word _ h hat (portPart?_repr hport),
      String.ofList_toList]
    rfl
  rw [poolEndpoint, Endpoint.ofUrl, hread]
  exact congrArg _ (ofNetworkUrl_plain host port)

/-- The locator of a node whose host is given by a locator is refused. -/
theorem poolEndpoint_locator {scheme host : String} (hscheme : IsWord scheme.toList)
    (hhost : IsWord host.toList) (port port' : Nat) :
    poolEndpoint (StoreSettings.nodeUrl (scheme ++ "://" ++ host ++ ":" ++ Nat.repr port) port') =
      .error (.createPool (.config (Endpoint.refused "Invalid database number"))) := by
  let tail := host.toList ++ ':' :: ((Nat.repr port).toList ++ ':' :: (Nat.repr port').toList)
  have htext :
      (StoreSettings.nodeUrl (scheme ++ "://" ++ host ++ ":" ++ Nat.repr port) port').toList =
        ['r', 'e', 'd', 'i', 's', ':', '/', '/'] ++
          (scheme.toList ++ ':' :: '/' :: '/' :: tail) := by
    simp [StoreSettings.nodeUrl, tail]
  have hplace : IsPlace (scheme.toList ++ ':' :: '/' :: '/' :: tail) := by
    have hsplit : scheme.toList ++ ':' :: '/' :: '/' :: tail =
        scheme.toList ++ ':' :: '/' :: '/' :: (host.toList ++ ':' :: ((Nat.repr port).toList ++
          [':'])) ++ (Nat.repr port').toList := by
      simp [tail]
    rw [hsplit]
    refine isPlace_of_repr port' ?_
    simp only [List.forall_mem_append, List.forall_mem_cons]
    exact ⟨hscheme.mayStand, mayStand_colon, mayStand_slash, mayStand_slash, hhost.mayStand,
      mayStand_colon, (isWord_repr port).mayStand, mayStand_colon, fun _ hmem => nomatch hmem⟩
  have hslash : '/' ∉ tail :=
    not_mem_join (hhost.not_mem (by decide)) (by decide) (not_mem_join
      ((isWord_repr port).not_mem (by decide)) (by decide)
      ((isWord_repr port').not_mem (by decide)))
  have hcolon : ':' ∈ tail := by simp [tail]
  have hread : Net.Url.read?
      (StoreSettings.nodeUrl (scheme ++ "://" ++ host ++ ":" ++ Nat.repr port) port') =
        some { scheme := "redis", host := some scheme, path := ["", String.ofList tail] } := by
    have hnone : '/' ∉ scheme.toList ++ [':'] :=
      not_mem_join (hscheme.not_mem (by decide)) (by decide) List.not_mem_nil
    have hpass := ne_of_not_mem hnone
    have hfront : (scheme.toList ++ ':' :: '/' :: '/' :: tail).takeWhile (· != '/') =
        scheme.toList ++ [':'] := by
      rw [List.append_cons, List.takeWhile_append_of_pos hpass]
      simp
    have hback : (scheme.toList ++ ':' :: '/' :: '/' :: tail).dropWhile (· != '/') =
        '/' :: '/' :: tail := by
      rw [List.append_cons, List.dropWhile_append_of_pos hpass]
      simp
    rw [read?_redis htext hplace, hfront, hback, authority?_word _ hscheme (by simp) rfl,
      pathParts_place hslash hcolon, String.ofList_toList]
    rfl
  have hdatabase := @database?_of_colon (String.ofList tail) (by rwa [String.toList_ofList])
  have hsome : (String.ofList tail).isEmpty = false := by simp [tail]
  have hpath : Endpoint.pathText ["", String.ofList tail] = String.ofList tail := by
    have htrim : List.dropWhile String.isEmpty [String.ofList tail] = [String.ofList tail] :=
      List.dropWhile_cons_of_neg (by simp [hsome])
    show String.intercalate "/" (List.dropWhile String.isEmpty
      (List.dropWhile String.isEmpty [String.ofList tail]).reverse).reverse = _
    rw [htrim, List.reverse_singleton, htrim]
    rfl
  rw [poolEndpoint, Endpoint.ofUrl, hread]
  show (Endpoint.ofNetworkUrl _).mapError _ = _
  rw [Endpoint.ofNetworkUrl]
  dsimp only
  rw [hpath, hdatabase, hsome]
  rfl

end Redis

end Latchkey
