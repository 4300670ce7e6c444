namespace Patchbay.Level

-- Every six decibels double the gain.
def ofDecibels (db : Float) : Float := Float.pow 2.0 (db / 6.0)

def decibels (gain : Float) : Float := 20.0 * gain.log10

def pi : Float := 3.141592653589793

-- A fader from 0 to 100 follows a quarter of a sine.
def ofFader (level : Float) : Float := (0.5 * pi * level / 100.0).sin

-- Pulses each second, `subdivision` of them to a beat.
def pulseRate (bpm subdivision : Float) : Float := bpm / 60.0 * subdivision

end Patchbay.Level
