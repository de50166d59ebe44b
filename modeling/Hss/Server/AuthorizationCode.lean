import Hss.CString
import Mathlib.Data.Nat.Digits.Lemmas
import Mathlib.Probability.Distributions.Uniform

namespace Hss.AuthorizationCode

open Hss.CString

def map : List UInt8 := ascii "0123456789ABCDEFWXYZabcdefghijklGHIJKLMNOPQRSTUVmnopqrstuvwxyz~@"

def bufferLength (authorizationCodeLength : Nat) : Nat := authorizationCodeLength / 32 * 3

/-- The inner loop: the indices that are taken from a word, and what is left of it. -/
def extract : Nat → UInt64 → List UInt64 × UInt64
  | 0, word => ([], word)
  | n + 1, word =>
    let (taken, rest) := extract n (word >>> 6)
    ((word &&& 0x3f) :: taken, rest)

/-- The last loop: two indices from what is left of three words. -/
def combine : List UInt64 → List UInt64
  | rest₀ :: rest₁ :: rest₂ :: rests =>
    (rest₀ ||| ((rest₁ &&& 0xc) <<< 2)) :: (rest₂ ||| ((rest₁ &&& 0x3) <<< 4)) :: combine rests
  | _ => []

def taken (buffer : List UInt64) : List UInt64 := buffer.flatMap fun word => (extract 10 word).1

def rests (buffer : List UInt64) : List UInt64 := buffer.map fun word => (extract 10 word).2

def indices (buffer : List UInt64) : List UInt64 := taken buffer ++ combine (rests buffer)

/-- The code computed from the random words; `none` stands for a read outside the table. -/
def getAuthorizationCode (buffer : List UInt64) : Option (List UInt8) :=
  (indices buffer).mapM fun i => map[i.toNat]?

def IsCode (length : Nat) (code : List UInt8) : Prop :=
  code.length = length ∧ ∀ c ∈ code, c ∈ map

/-- What `getrandom` fills a buffer with: every sequence of words is equally likely. -/
noncomputable def getrandom (bufferLength : Nat) : PMF (List UInt64) :=
  (PMF.uniformOfFintype (Fin bufferLength → Fin (2 ^ 64))).map fun words =>
    .ofFn fun i => .ofFin (words i)

variable {n k : Nat} {word r : UInt64} {ds rs ps buffer : List UInt64} {code : List UInt8}

theorem lt_sixteen_iff {a : UInt64} : a < 16 ↔ a.toNat < 16 := UInt64.lt_iff_toNat_lt

theorem lt_sixtyFour_iff {a : UInt64} : a < 64 ↔ a.toNat < 64 := UInt64.lt_iff_toNat_lt

theorem exists_three (h : rs.length = 3 * (k + 1)) :
    ∃ a b c rest, rs = a :: b :: c :: rest ∧ rest.length = 3 * k := by
  match rs, h with
  | a :: b :: c :: rest, h => exact ⟨a, b, c, rest, rfl, by simpa [Nat.mul_succ] using h⟩

theorem extract_iff : extract n word = (ds, r) ↔ ds.length = n ∧ (∀ d ∈ ds, d < 64) ∧
    word.toNat = Nat.ofDigits 64 (ds.map UInt64.toNat) + 64 ^ n * r.toNat := by
  induction n generalizing word ds with
  | zero =>
    rw [extract, Prod.mk.injEq, List.length_eq_zero_iff]
    constructor
    · rintro ⟨rfl, rfl⟩
      simp
    · rintro ⟨rfl, -, hword⟩
      exact ⟨rfl, UInt64.toNat_inj.mp (by simpa using hword)⟩
  | succ n ih =>
    have hdigit : (word &&& 0x3f).toNat = word.toNat % 64 := by
      rw [UInt64.toNat_and]
      exact Nat.and_two_pow_sub_one_eq_mod word.toNat 6
    have hshift : (word >>> 6).toNat = word.toNat / 64 := by
      rw [UInt64.toNat_shiftRight]
      exact Nat.shiftRight_eq_div_pow word.toNat 6
    cases ds with
    | nil => simp [extract]
    | cons d ds =>
      have hstep : extract (n + 1) word = (d :: ds, r) ↔
          word &&& 0x3f = d ∧ extract n (word >>> 6) = (ds, r) := by
        simp only [extract, List.cons.injEq, and_assoc, Prod.ext_iff]
      rw [hstep, ih, hshift, ← UInt64.toNat_inj, hdigit, List.map_cons, Nat.ofDigits_cons,
        List.forall_mem_cons, lt_sixtyFour_iff, List.length_cons, pow_succ]
      constructor
      · rintro ⟨hd, hlength, hds, hrest⟩
        refine ⟨by omega, ⟨by omega, hds⟩, ?_⟩
        have hsplit := Nat.div_add_mod word.toNat 64
        rw [hrest, hd] at hsplit
        linarith
      · rintro ⟨hlength, ⟨hd, hds⟩, hword⟩
        have hvalue : word.toNat =
            d.toNat + 64 * (Nat.ofDigits 64 (ds.map UInt64.toNat) + 64 ^ n * r.toNat) := by
          rw [hword]
          ring
        rw [hvalue]
        refine ⟨by omega, by omega, hds, by omega⟩

/-- Ten digits below 64 and a rest below 16 belong to exactly one word. -/
theorem extract_unique (hlength : ds.length = 10) (hds : ∀ d ∈ ds, d < 64) (hr : r < 16) :
    ∃! word, extract 10 word = (ds, r) := by
  have hdigits : ∀ d ∈ ds.map UInt64.toNat, d < 64 := by
    intro d hd
    obtain ⟨e, he, rfl⟩ := List.mem_map.mp hd
    exact lt_sixtyFour_iff.mp (hds e he)
  have hlt := Nat.ofDigits_lt_base_pow_length (by decide : 1 < 64) hdigits
  have hrest := lt_sixteen_iff.mp hr
  rw [List.length_map, hlength] at hlt
  have hfits : Nat.ofDigits 64 (ds.map UInt64.toNat) + 64 ^ 10 * r.toNat < 2 ^ 64 := by omega
  refine ⟨.ofNat (Nat.ofDigits 64 (ds.map UInt64.toNat) + 64 ^ 10 * r.toNat), ?_, ?_⟩
  · exact extract_iff.mpr ⟨hlength, hds, UInt64.toNat_ofNat_of_lt' hfits⟩
  · intro word hword
    apply UInt64.toNat_inj.mp
    rw [UInt64.toNat_ofNat_of_lt' hfits, (extract_iff.mp hword).2.2]

theorem extract_bounded (word : UInt64) : (extract 10 word).1.length = 10 ∧
    (∀ d ∈ (extract 10 word).1, d < 64) ∧ (extract 10 word).2 < 16 := by
  have hpair : extract 10 word = ((extract 10 word).1, (extract 10 word).2) := rfl
  obtain ⟨hlength, hds, hword⟩ := extract_iff.mp hpair
  refine ⟨hlength, hds, lt_sixteen_iff.mpr ?_⟩
  have hlt := word.toNat_lt
  omega

theorem taken_bounded (buffer : List UInt64) :
    (taken buffer).length = 10 * buffer.length ∧ ∀ d ∈ taken buffer, d < 64 := by
  induction buffer with
  | nil => simp [taken]
  | cons word buffer ih =>
    obtain ⟨hlength, hds, -⟩ := extract_bounded word
    rw [taken, List.flatMap_cons, List.length_append, List.length_cons, hlength]
    refine ⟨by have := ih.1; rw [taken] at this; omega, fun d hd => ?_⟩
    obtain hd | hd := List.mem_append.mp hd
    · exact hds d hd
    · exact ih.2 d hd

theorem rests_bounded (buffer : List UInt64) :
    (rests buffer).length = buffer.length ∧ ∀ r ∈ rests buffer, r < 16 := by
  refine ⟨List.length_map _, fun r hr => ?_⟩
  obtain ⟨word, -, rfl⟩ := List.mem_map.mp hr
  exact (extract_bounded word).2.2

theorem buffer_unique (hlength : ds.length = 10 * rs.length) (hds : ∀ d ∈ ds, d < 64)
    (hrs : ∀ r ∈ rs, r < 16) : ∃! buffer, taken buffer = ds ∧ rests buffer = rs := by
  induction rs generalizing ds with
  | nil =>
    obtain rfl := List.length_eq_zero_iff.mp hlength
    refine ⟨[], ⟨rfl, rfl⟩, fun buffer h => ?_⟩
    exact List.map_eq_nil_iff.mp h.2
  | cons r rs ih =>
    rw [List.forall_mem_cons] at hrs
    rw [List.length_cons] at hlength
    have htake : (ds.take 10).length = 10 := by rw [List.length_take]; omega
    have hdrop : (ds.drop 10).length = 10 * rs.length := by rw [List.length_drop]; omega
    obtain ⟨word, hword, hone⟩ := extract_unique htake
      (fun d hd => hds d (List.mem_of_mem_take hd)) hrs.1
    obtain ⟨buffer, ⟨htaken, hrests⟩, hrest⟩ :=
      ih hdrop (fun d hd => hds d (List.mem_of_mem_drop hd)) hrs.2
    refine ⟨word :: buffer, ⟨?_, ?_⟩, ?_⟩
    · rw [taken, List.flatMap_cons, hword, ← taken, htaken, List.take_append_drop]
    · rw [rests, List.map_cons, hword, ← rests, hrests]
    · rintro (_ | ⟨word', buffer'⟩) ⟨htaken', hrests'⟩
      · cases hrests'
      · rw [rests, List.map_cons, ← rests, List.cons.injEq] at hrests'
        rw [taken, List.flatMap_cons, ← taken] at htaken'
        have hten := (extract_bounded word').1
        have hfirst : (extract 10 word').1 = ds.take 10 := by
          rw [← htaken', List.take_left' hten]
        have hsecond : taken buffer' = ds.drop 10 := by
          rw [← htaken', List.drop_left' hten]
        rw [hone word' (Prod.ext hfirst hrests'.1), hrest buffer' ⟨hsecond, hrests'.2⟩]

theorem or_high {a : Nat} (ha : a < 2 ^ 4) (m : Nat) : a ||| 2 ^ 4 * m = a + 16 * m :=
  calc a ||| 2 ^ 4 * m
      = 2 ^ 4 * m ||| a := Nat.or_comm _ _
    _ = 2 ^ 4 * m + a := (Nat.two_pow_add_eq_or_of_lt ha m).symm
    _ = a + 16 * m := Nat.add_comm _ _

theorem toNat_joined {a b : UInt64} (ha : a < 16) (hb : b < 16) :
    (a ||| ((b &&& 0xc) <<< 2)).toNat = a.toNat + 16 * (b.toNat / 4) ∧
      (a ||| ((b &&& 0x3) <<< 4)).toNat = a.toNat + 16 * (b.toNat % 4) := by
  have hmasks : ∀ b < 16, ((b &&& 12) <<< 2) % 2 ^ 64 = 2 ^ 4 * (b / 4) ∧
      ((b &&& 3) <<< 4) % 2 ^ 64 = 2 ^ 4 * (b % 4) := by decide
  obtain ⟨hhigh, hlow⟩ := hmasks b.toNat (lt_sixteen_iff.mp hb)
  have ha' : a.toNat < 2 ^ 4 := lt_sixteen_iff.mp ha
  constructor
  · rw [UInt64.toNat_or, UInt64.toNat_shiftLeft, UInt64.toNat_and, ← or_high ha', ← hhigh]
    rfl
  · rw [UInt64.toNat_or, UInt64.toNat_shiftLeft, UInt64.toNat_and, ← or_high ha', ← hlow]
    rfl

theorem combine_bounded (hlength : rs.length = 3 * k) (hrs : ∀ r ∈ rs, r < 16) :
    (combine rs).length = 2 * k ∧ ∀ i ∈ combine rs, i < 64 := by
  induction k generalizing rs with
  | zero =>
    obtain rfl := List.length_eq_zero_iff.mp hlength
    exact ⟨rfl, fun i hi => by cases hi⟩
  | succ k ih =>
    obtain ⟨a, b, c, rest, rfl, hrest⟩ := exists_three hlength
    simp only [List.forall_mem_cons] at hrs
    obtain ⟨ha, hb, hc, hrs⟩ := hrs
    obtain ⟨hlen, hall⟩ := ih hrest hrs
    refine ⟨by rw [combine, List.length_cons, List.length_cons, hlen, Nat.mul_succ], ?_⟩
    rw [combine, List.forall_mem_cons, List.forall_mem_cons]
    have ha' := lt_sixteen_iff.mp ha
    have hb' := lt_sixteen_iff.mp hb
    have hc' := lt_sixteen_iff.mp hc
    refine ⟨?_, ?_, hall⟩
    · rw [lt_sixtyFour_iff, (toNat_joined ha hb).1]
      omega
    · rw [lt_sixtyFour_iff, (toNat_joined hc hb).2]
      omega

theorem joined_iff {a b c p q : UInt64} (hp : p < 64) (hq : q < 64) :
    (a < 16 ∧ b < 16 ∧ c < 16) ∧
        (a ||| ((b &&& 0xc) <<< 2)) = p ∧ (c ||| ((b &&& 0x3) <<< 4)) = q ↔
      a = p % 16 ∧ b = 4 * (p / 16) + q / 16 ∧ c = q % 16 := by
  have hp' := lt_sixtyFour_iff.mp hp
  have hq' := lt_sixtyFour_iff.mp hq
  have h4 : (4 : UInt64).toNat = 4 := rfl
  have h16 : (16 : UInt64).toNat = 16 := rfl
  have hmiddle : (4 * (p / 16) + q / 16).toNat = 4 * (p.toNat / 16) + q.toNat / 16 := by
    simp only [UInt64.toNat_add, UInt64.toNat_mul, UInt64.toNat_div, h4, h16]
    omega
  simp only [← UInt64.toNat_inj (a := a), ← UInt64.toNat_inj (a := b), ← UInt64.toNat_inj (a := c),
    hmiddle, UInt64.toNat_mod, h16]
  constructor
  · rintro ⟨⟨ha, hb, hc⟩, rfl, rfl⟩
    have hsums := And.intro (toNat_joined ha hb).1 (toNat_joined hc hb).2
    rw [lt_sixteen_iff] at ha hb hc
    rw [hsums.1, hsums.2]
    omega
  · rintro ⟨ha, hb, hc⟩
    have hall : a < 16 ∧ b < 16 ∧ c < 16 := by
      simp only [lt_sixteen_iff]
      omega
    refine ⟨hall, ?_, ?_⟩
    · rw [← UInt64.toNat_inj, (toNat_joined hall.1 hall.2.1).1]
      omega
    · rw [← UInt64.toNat_inj, (toNat_joined hall.2.2 hall.2.1).2]
      omega

theorem combine_unique (hlength : ps.length = 2 * k) (hps : ∀ p ∈ ps, p < 64) :
    ∃! rs, rs.length = 3 * k ∧ (∀ r ∈ rs, r < 16) ∧ combine rs = ps := by
  induction k generalizing ps with
  | zero =>
    obtain rfl := List.length_eq_zero_iff.mp hlength
    exact ⟨[], ⟨rfl, by simp, rfl⟩, fun rs h => List.length_eq_zero_iff.mp h.1⟩
  | succ k ih =>
    obtain ⟨p, q, ps, rfl⟩ : ∃ p q ps', ps = p :: q :: ps' := by
      match ps, hlength with
      | p :: q :: ps, _ => exact ⟨p, q, ps, rfl⟩
    simp only [List.forall_mem_cons] at hps
    obtain ⟨hp, hq, hps⟩ := hps
    obtain ⟨rs, ⟨hlen, hrs, hcombine⟩, hone⟩ := ih (by simpa [Nat.mul_succ] using hlength) hps
    obtain ⟨⟨ha, hb, hc⟩, hfirst, hsecond⟩ := (joined_iff hp hq).mpr ⟨rfl, rfl, rfl⟩
    refine ⟨p % 16 :: (4 * (p / 16) + q / 16) :: q % 16 :: rs, ⟨?_, ?_, ?_⟩, ?_⟩
    · simp only [List.length_cons, hlen, Nat.mul_succ]
    · simp only [List.forall_mem_cons]
      exact ⟨ha, hb, hc, hrs⟩
    · rw [combine, hfirst, hsecond, hcombine]
    · rintro rs' ⟨hlen', hrs', hcombine'⟩
      obtain ⟨a, b, c, rest, rfl, hthree⟩ := exists_three hlen'
      simp only [List.forall_mem_cons] at hrs'
      obtain ⟨ha', hb', hc', hrest⟩ := hrs'
      rw [combine, List.cons.injEq, List.cons.injEq] at hcombine'
      obtain ⟨hpq, hqq, hcombine'⟩ := hcombine'
      obtain ⟨rfl, rfl, rfl⟩ := (joined_iff hp hq).mp ⟨⟨ha', hb', hc'⟩, hpq, hqq⟩
      rw [hone rest ⟨hthree, hrest, hcombine'⟩]

theorem indices_bounded (hlength : buffer.length = 3 * k) :
    (indices buffer).length = 32 * k ∧ ∀ i ∈ indices buffer, i < 64 := by
  obtain ⟨htaken, hds⟩ := taken_bounded buffer
  obtain ⟨hrests, hrs⟩ := rests_bounded buffer
  obtain ⟨hcombined, hps⟩ := combine_bounded (hrests.trans hlength) hrs
  refine ⟨by rw [indices, List.length_append, htaken, hcombined]; omega, fun i hi => ?_⟩
  obtain hi | hi := List.mem_append.mp hi
  · exact hds i hi
  · exact hps i hi

/-- Every bit of the words lands in exactly one index. -/
theorem indices_unique {is : List UInt64} (hlength : is.length = 32 * k) (his : ∀ i ∈ is, i < 64) :
    ∃! buffer, buffer.length = 3 * k ∧ indices buffer = is := by
  have htake : (is.take (30 * k)).length = 30 * k := by rw [List.length_take]; omega
  have hdrop : (is.drop (30 * k)).length = 2 * k := by rw [List.length_drop]; omega
  obtain ⟨rs, ⟨hlen, hrs, hcombine⟩, hrests⟩ :=
    combine_unique hdrop fun i hi => his i (List.mem_of_mem_drop hi)
  have hten : (is.take (30 * k)).length = 10 * rs.length := by omega
  obtain ⟨buffer, ⟨htaken, hleft⟩, hone⟩ :=
    buffer_unique hten (fun i hi => his i (List.mem_of_mem_take hi)) hrs
  refine ⟨buffer, ⟨?_, ?_⟩, ?_⟩
  · rw [← (rests_bounded buffer).1, hleft, hlen]
  · rw [indices, htaken, hleft, hcombine, List.take_append_drop]
  · rintro buffer' ⟨hlen', rfl⟩
    have hsplit : (taken buffer').length = 30 * k := by rw [(taken_bounded buffer').1]; omega
    obtain ⟨hlen'', hrs'⟩ := rests_bounded buffer'
    refine hone buffer' ⟨(List.take_left' hsplit).symm, ?_⟩
    exact hrests (rests buffer') ⟨hlen''.trans hlen', hrs', (List.drop_left' hsplit).symm⟩

theorem map_nodup : map.length = 64 ∧ map.Nodup := by decide +kernel

theorem spelled_unique (hcode : ∀ c ∈ code, c ∈ map) :
    ∃! is : List UInt64, is.mapM (fun i => map[i.toNat]?) = some code ∧ ∀ i ∈ is, i < 64 := by
  induction code with
  | nil =>
    refine ⟨[], ⟨rfl, by simp⟩, ?_⟩
    rintro (_ | ⟨i, is⟩) ⟨his, -⟩
    · rfl
    · simp [List.mapM_cons, Option.bind_eq_some_iff] at his
  | cons c code ih =>
    rw [List.forall_mem_cons] at hcode
    obtain ⟨is, ⟨his, hbound⟩, hone⟩ := ih hcode.2
    obtain ⟨j, hj, rfl⟩ := List.getElem_of_mem hcode.1
    have hj64 : j < 64 := map_nodup.1 ▸ hj
    have hsize : j < 2 ^ 64 := by omega
    have htoNat : (UInt64.ofNat j).toNat = j := UInt64.toNat_ofNat_of_lt' hsize
    refine ⟨.ofNat j :: is, ⟨?_, ?_⟩, ?_⟩
    · simp only [List.mapM_cons, htoNat, List.getElem?_eq_getElem hj, his, Option.bind_eq_bind,
        Option.bind_some, Option.pure_def]
    · refine List.forall_mem_cons.mpr ⟨?_, hbound⟩
      rw [lt_sixtyFour_iff, htoNat]
      exact hj64
    · rintro (_ | ⟨i, is'⟩) ⟨his', hbound'⟩
      · cases his'
      · rw [List.forall_mem_cons] at hbound'
        simp only [List.mapM_cons, Option.bind_eq_bind, Option.bind_eq_some_iff, Option.pure_def,
          Option.some.injEq, List.cons.injEq] at his'
        obtain ⟨c', hc', code', hcode', rfl, rfl⟩ := his'
        obtain ⟨hi, hget⟩ := List.getElem?_eq_some_iff.mp hc'
        have hij := (List.Nodup.getElem_inj_iff map_nodup.2).mp hget
        rw [hone is' ⟨hcode', hbound'.2⟩, ← UInt64.toNat_inj (a := i) |>.mp (hij.trans htoNat.symm)]

theorem code_of_indices {is : List UInt64} (his : ∀ i ∈ is, i < 64) :
    ∃ code, is.mapM (fun i => map[i.toNat]?) = some code ∧ IsCode is.length code := by
  induction is with
  | nil => exact ⟨[], rfl, rfl, by simp⟩
  | cons i is ih =>
    rw [List.forall_mem_cons] at his
    obtain ⟨code, hcode, hlength, hmem⟩ := ih his.2
    have hi : i.toNat < map.length := lt_sixtyFour_iff.mp his.1
    refine ⟨map[i.toNat] :: code, ?_, ?_, ?_⟩
    · simp only [List.mapM_cons, List.getElem?_eq_getElem hi, hcode, Option.bind_eq_bind,
        Option.bind_some, Option.pure_def]
    · rw [List.length_cons, List.length_cons, hlength]
    · exact List.forall_mem_cons.mpr ⟨List.getElem_mem hi, hmem⟩

theorem code_of_words (hlength : buffer.length = 3 * k) :
    ∃ code, getAuthorizationCode buffer = some code ∧ IsCode (32 * k) code := by
  obtain ⟨hlen, his⟩ := indices_bounded hlength
  rw [← hlen]
  exact code_of_indices his

/-- Every text over the table is the code of exactly one sequence of words. -/
theorem words_unique (hcode : IsCode (32 * k) code) :
    ∃! buffer, buffer.length = 3 * k ∧ getAuthorizationCode buffer = some code := by
  obtain ⟨is, ⟨his, hbound⟩, hone⟩ := spelled_unique hcode.2
  have hlength : is.length = 32 * k := by
    obtain ⟨code', hcode', hlen, -⟩ := code_of_indices hbound
    cases his.symm.trans hcode'
    exact hlen.symm.trans hcode.1
  obtain ⟨buffer, ⟨hlen, rfl⟩, hfirst⟩ := indices_unique hlength hbound
  refine ⟨buffer, ⟨hlen, his⟩, ?_⟩
  rintro buffer' ⟨hlen', hcode'⟩
  exact hfirst buffer' ⟨hlen', hone (indices buffer') ⟨hcode', (indices_bounded hlen').2⟩⟩

theorem code_uniform (hcode : IsCode (32 * k) code) :
    (getrandom (3 * k)).map getAuthorizationCode (some code) = ((64 : ENNReal) ^ (32 * k))⁻¹ := by
  obtain ⟨buffer, ⟨hlength, hbuffer⟩, hone⟩ := words_unique hcode
  obtain ⟨words, hwords⟩ : ∃ words : Fin (3 * k) → Fin (2 ^ 64),
      List.ofFn (fun i => UInt64.ofFin (words i)) = buffer := by
    rw [← hlength]
    exact ⟨fun i => (buffer.get i).toFin, List.ofFn_get buffer⟩
  have hcard : Fintype.card (Fin (3 * k) → Fin (2 ^ 64)) = 64 ^ (32 * k) := by
    rw [Fintype.card_fun, Fintype.card_fin, Fintype.card_fin, ← pow_mul,
      show 64 * (3 * k) = 6 * (32 * k) by ring, pow_mul]
    rfl
  rw [getrandom, PMF.map_comp, PMF.map_apply, tsum_eq_single words]
  · rw [Function.comp_apply, hwords, hbuffer, if_pos rfl, PMF.uniformOfFintype_apply, hcard]
    push_cast
    rfl
  · intro words' hne
    refine if_neg fun h => hne ?_
    have hsame := hone _ ⟨List.length_ofFn, h.symm⟩
    rw [← hwords] at hsame
    funext i
    have hi := congrFun (List.ofFn_injective hsame) i
    exact congrArg UInt64.toFin hi

/-- The code keeps the randomness of the words: the indices stay below the length of the table,
the code has its length, no two sequences of words have one code, and all codes are equally
likely. -/
theorem code_keeps_entropy {authorizationCodeLength : Nat} (hpositive : 0 < authorizationCodeLength)
    (h32 : 32 ∣ authorizationCodeLength) :
    (map.length = 64 ∧ map.Nodup) ∧
      (∀ buffer : List UInt64, buffer.length = bufferLength authorizationCodeLength →
        (∀ i ∈ indices buffer, i < 64) ∧
          ∃ code, getAuthorizationCode buffer = some code ∧
            code.length = authorizationCodeLength) ∧
      (∀ buffer buffer' : List UInt64, buffer.length = bufferLength authorizationCodeLength →
        buffer'.length = bufferLength authorizationCodeLength →
          getAuthorizationCode buffer = getAuthorizationCode buffer' → buffer = buffer') ∧
      ∀ code, IsCode authorizationCodeLength code →
        (getrandom (bufferLength authorizationCodeLength)).map getAuthorizationCode (some code) =
          ((64 : ENNReal) ^ authorizationCodeLength)⁻¹ := by
  obtain ⟨k, rfl⟩ := h32
  have hbuffer : bufferLength (32 * k) = 3 * k := by
    rw [bufferLength, Nat.mul_div_cancel_left k (by decide), Nat.mul_comm]
  rw [hbuffer]
  refine ⟨map_nodup, ?_, ?_, fun code => code_uniform⟩
  · intro buffer hlength
    obtain ⟨code, hcode, hlen, -⟩ := code_of_words hlength
    exact ⟨(indices_bounded hlength).2, code, hcode, hlen⟩
  · intro buffer buffer' hlength hlength' h
    obtain ⟨code, hcode, his⟩ := code_of_words hlength
    exact (words_unique his).unique ⟨hlength, hcode⟩ ⟨hlength', h.symm.trans hcode⟩

theorem code_keeps_entropy_default : (map.length = 64 ∧ map.Nodup) ∧
    (getrandom 3).map getAuthorizationCode (some (.replicate 32 48)) = ((64 : ENNReal) ^ 32)⁻¹ :=
  have h := code_keeps_entropy (by decide : 0 < 32) (by decide)
  ⟨h.1, h.2.2.2 (.replicate 32 48) ⟨by decide, by decide +kernel⟩⟩

end Hss.AuthorizationCode
