/-!
# The normal distribution

Its distribution function over the doubles, from rational approximations of the error function:
`x P(x²) / Q(x²)` near zero and `exp(-x²) P(x) / Q(x)` in the tails, where the complement keeps its
relative accuracy.
-/

namespace RootSearch.Normal

/-- A polynomial from its coefficients, the leading one first. -/
def horner (coefficients : List Float) (x : Float) : Float :=
  coefficients.foldl (fun acc c => acc * x + c) 0.0

/-- The error function for `|x| < 1`. -/
def erfNearZero (x : Float) : Float :=
  let z := x * x
  x * horner [9.60497373987051638749, 9.00260197203842689217e1, 2.23200534594684319226e3,
      7.00332514112805075473e3, 5.55923013010394962768e4] z /
    horner [1.0, 3.35617141647503099647e1, 5.21357949780152679795e2, 4.59432382970980127987e3,
      2.26290000613890934246e4, 4.92673942608635921086e4] z

/-- The complementary error function for `x ≥ 1`. -/
def erfcTail (x : Float) : Float :=
  let scale := Float.exp (-(x * x))
  if x < 8.0 then
    scale * horner [2.46196981473530512524e-10, 5.64189564831068821977e-1, 7.46321056442269912687,
        4.86371970985681366614e1, 1.96520832956077098242e2, 5.26445194995477358631e2,
        9.34528527171957607540e2, 1.02755188689515710272e3, 5.57535335369399327526e2] x /
      horner [1.0, 1.32281951154744992508e1, 8.67072140885989742329e1, 3.54937778887819891062e2,
        9.75708501743205489753e2, 1.82390916687909736289e3, 2.24633760818710981792e3,
        1.65666309194161350182e3, 5.57535340817727675546e2] x
  else if scale == 0.0 then
    0.0
  else
    scale * horner [5.64189583547755073984e-1, 1.27536670759978104416, 5.01905042251180477414,
        6.16021097993053585195, 7.40974269950448939160, 2.97886665372100240670] x /
      horner [1.0, 2.26052863220117276590, 9.39603524938001434673, 1.20489539808096656605e1,
        1.70814450747565897222e1, 9.60896809063285878198, 3.36907645100081516050] x

/-- The standard normal distribution function. -/
def cdf (x : Float) : Float :=
  let z := x * 0.70710678118654752440
  if z.abs < 1.0 then
    0.5 + 0.5 * erfNearZero z
  else if z.isNaN then
    z
  else
    let tail := 0.5 * erfcTail z.abs
    if 0.0 < z then 1.0 - tail else tail

end RootSearch.Normal
