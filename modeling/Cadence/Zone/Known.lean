import Cadence.Zone.YearlyRule

/-!
A few places, with the whole history of each as the tz database has it (release 2025b): seconds of UTC, each with the
offset in seconds east that holds from then on. Where a rule recurred for some years it stands for its transitions.
Rules that are in force today are written out until 2099, and the last offset stays from there on. A program that is
run without any other database knows these places, and takes its host to keep UTC.
-/

namespace Cadence.Region

private def history (pairs : List (Int × Int)) : List Transition := pairs.map fun (second, offset) => ⟨second, offset⟩

def berlin : Region where
  name := "Europe/Berlin"
  table := ⟨3208, history [
    (-2422054408, 3600), (-1693706400, 7200), (-1680483600, 3600), (-1663455600, 7200), (-1650150000, 3600),
    (-1632006000, 7200), (-1618700400, 3600), (-938905200, 7200), (-857257200, 3600), (-844556400, 7200),
    (-828226800, 3600), (-812502000, 7200), (-796777200, 3600), (-781052400, 7200), (-776563200, 10800),
    (-765936000, 7200), (-761180400, 3600), (-748479600, 7200), (-733273200, 3600), (-717631200, 7200),
    (-714610800, 10800), (-710380800, 7200), (-701910000, 3600), (-684975600, 7200), (-670460400, 3600),
    (-654130800, 7200), (-639010800, 3600), (323830800, 7200), (338950800, 3600), (354675600, 7200),
    (370400400, 3600), (386125200, 7200), (401850000, 3600), (417574800, 7200), (433299600, 3600),
    (449024400, 7200), (465354000, 3600), (481078800, 7200), (496803600, 3600), (512528400, 7200),
    (528253200, 3600), (543978000, 7200), (559702800, 3600), (575427600, 7200), (591152400, 3600),
    (606877200, 7200), (622602000, 3600), (638326800, 7200), (654656400, 3600), (670381200, 7200),
    (686106000, 3600), (701830800, 7200), (717555600, 3600), (733280400, 7200), (749005200, 3600),
    (764730000, 7200), (780454800, 3600), (796179600, 7200), (811904400, 3600), (828234000, 7200), (846378000, 3600)] ++
    YearlyRule.expand [⟨3, .last, 0, 3600, 7200⟩, ⟨10, .last, 0, 3600, 3600⟩] 1997 103⟩

def newYork : Region where
  name := "America/New_York"
  table := ⟨-17762, history [(-2717650800, -18000)] ++
    YearlyRule.expand [⟨3, .last, 0, 25200, -14400⟩, ⟨10, .last, 0, 21600, -18000⟩] 1918 3 ++
    YearlyRule.expand [⟨4, .last, 0, 25200, -14400⟩, ⟨9, .last, 0, 21600, -18000⟩] 1921 21 ++
    history [(-880218000, -14400), (-765396000, -18000)] ++
    YearlyRule.expand [⟨4, .last, 0, 25200, -14400⟩, ⟨9, .last, 0, 21600, -18000⟩] 1946 9 ++
    YearlyRule.expand [⟨4, .last, 0, 25200, -14400⟩, ⟨10, .last, 0, 21600, -18000⟩] 1955 19 ++
    history [(126687600, -14400), (152085600, -18000), (162370800, -14400), (183535200, -18000)] ++
    YearlyRule.expand [⟨4, .last, 0, 25200, -14400⟩, ⟨10, .last, 0, 21600, -18000⟩] 1976 11 ++
    YearlyRule.expand [⟨4, .first, 0, 25200, -14400⟩, ⟨10, .last, 0, 21600, -18000⟩] 1987 20 ++
    YearlyRule.expand [⟨3, .second, 0, 25200, -14400⟩, ⟨11, .first, 0, 21600, -18000⟩] 2007 93⟩

def kolkata : Region where
  name := "Asia/Kolkata"
  table := ⟨21208, history [
    (-3645237208, 21200), (-3155694800, 19270), (-2019705670, 19800), (-891581400, 23400), (-872058600, 19800),
    (-862637400, 23400), (-764145000, 19800)]⟩

def lordHowe : Region where
  name := "Australia/Lord_Howe"
  table := ⟨38180, history [
    (-2364114980, 36000), (352216800, 37800), (372785400, 41400), (384273000, 37800), (404839800, 41400),
    (415722600, 37800), (436289400, 41400), (447172200, 37800), (467739000, 41400), (478621800, 37800),
    (499188600, 39600), (511282800, 37800), (530033400, 39600), (542732400, 37800), (562087800, 39600),
    (574786800, 37800), (594142200, 39600), (606236400, 37800), (625591800, 39600), (636476400, 37800),
    (657041400, 39600), (667926000, 37800), (688491000, 39600), (699375600, 37800), (719940600, 39600),
    (731430000, 37800), (751995000, 39600), (762879600, 37800), (783444600, 39600), (794329200, 37800),
    (814894200, 39600), (828198000, 37800), (846343800, 39600), (859647600, 37800), (877793400, 39600),
    (891097200, 37800), (909243000, 39600), (922546800, 37800), (941297400, 39600), (953996400, 37800),
    (967303800, 39600), (985446000, 37800), (1004196600, 39600), (1017500400, 37800), (1035646200, 39600),
    (1048950000, 37800), (1067095800, 39600), (1080399600, 37800), (1099150200, 39600), (1111849200, 37800),
    (1130599800, 39600), (1143903600, 37800), (1162049400, 39600), (1174748400, 37800), (1193499000, 39600)] ++
    YearlyRule.expand [⟨4, .first, -1, 54000, 37800⟩, ⟨10, .first, -1, 55800, 39600⟩] 2008 92⟩

def saoPaulo : Region where
  name := "America/Sao_Paulo"
  table := ⟨-11188, history [
    (-1767214412, -10800), (-1206957600, -7200), (-1191362400, -10800), (-1175374800, -7200), (-1159826400, -10800),
    (-633819600, -7200), (-622069200, -10800), (-602283600, -7200), (-591832800, -10800), (-570747600, -7200),
    (-560210400, -10800), (-539125200, -7200), (-531352800, -10800), (-195426000, -7200), (-184197600, -10800),
    (-155163600, -7200), (-150069600, -10800), (-128898000, -7200), (-121125600, -10800), (-99954000, -7200),
    (-89589600, -10800), (-68418000, -7200), (-57967200, -10800), (499748400, -7200), (511236000, -10800),
    (530593200, -7200), (540266400, -10800), (562129200, -7200), (571197600, -10800), (592974000, -7200),
    (602042400, -10800), (624423600, -7200), (634701600, -10800), (656478000, -7200), (666756000, -10800),
    (687927600, -7200), (697600800, -10800), (719982000, -7200), (728445600, -10800), (750826800, -7200),
    (761709600, -10800), (782276400, -7200), (793159200, -10800), (813726000, -7200), (824004000, -10800),
    (844570800, -7200), (856058400, -10800), (876106800, -7200), (888717600, -10800), (908074800, -7200),
    (919562400, -10800), (938919600, -7200), (951616800, -10800), (970974000, -7200), (982461600, -10800),
    (1003028400, -7200), (1013911200, -10800), (1036292400, -7200), (1045360800, -10800), (1066532400, -7200),
    (1076810400, -10800), (1099364400, -7200), (1108864800, -10800), (1129431600, -7200), (1140314400, -10800),
    (1162695600, -7200), (1172368800, -10800), (1192330800, -7200), (1203213600, -10800), (1224385200, -7200),
    (1234663200, -10800), (1255834800, -7200), (1266717600, -10800), (1287284400, -7200), (1298167200, -10800),
    (1318734000, -7200), (1330221600, -10800), (1350788400, -7200), (1361066400, -10800), (1382238000, -7200),
    (1392516000, -10800), (1413687600, -7200), (1424570400, -10800), (1445137200, -7200), (1456020000, -10800),
    (1476586800, -7200), (1487469600, -10800), (1508036400, -7200), (1518919200, -10800), (1541300400, -7200),
    (1550368800, -10800)]⟩

def apia : Region where
  name := "Pacific/Apia"
  table := ⟨45184, history [
    (-2445424384, -41216), (-1861878784, -41400), (-631110600, -39600), (1285498800, -36000), (1301752800, -39600),
    (1316872800, -36000), (1325239200, 50400), (1333202400, 46800), (1348927200, 50400), (1365256800, 46800),
    (1380376800, 50400), (1396706400, 46800), (1411826400, 50400), (1428156000, 46800), (1443276000, 50400),
    (1459605600, 46800), (1474725600, 50400), (1491055200, 46800), (1506175200, 50400), (1522504800, 46800),
    (1538229600, 50400), (1554559200, 46800), (1569679200, 50400), (1586008800, 46800), (1601128800, 50400),
    (1617458400, 46800)]⟩

def kathmandu : Region where
  name := "Asia/Kathmandu"
  table := ⟨20476, history [
    (-1577943676, 19800), (504901800, 20700)]⟩

def troll : Region where
  name := "Antarctica/Troll"
  table := ⟨0, history [
    (1111885200, 7200), (1130634000, 0)] ++
    YearlyRule.expand [⟨3, .last, 0, 3600, 7200⟩, ⟨10, .last, 0, 3600, 0⟩] 2006 94⟩

def kwajalein : Region where
  name := "Pacific/Kwajalein"
  table := ⟨40160, history [
    (-2177492960, 39600), (-1041418800, 36000), (-907408800, 32400), (-817462800, 39600), (-7988400, -43200),
    (745934400, 43200)]⟩

def etcUtc : Region where
  name := "Etc/UTC"
  table := ⟨0, []⟩

def gmtPlusFive : Region where
  name := "Etc/GMT+5"
  table := ⟨-18000, []⟩

def all : List Region :=
  [berlin, newYork, kolkata, lordHowe, saoPaulo, apia, kathmandu, troll, kwajalein, etcUtc, gmtPlusFive]

def ofName? (name : String) : Option Region := all.find? fun region => region.name == name

end Cadence.Region

namespace Cadence

/-- The places that are written out here, of all that a database may have. -/
instance TzDatabase.known : TzDatabase := ⟨Region.ofName?⟩

instance Host.utc : Host := ⟨.constant 0⟩

end Cadence
